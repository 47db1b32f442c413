/-
One layout contract?  What the validator of a staged candidate accepts, and what
the validator of the map accepts, both in terms of the map.
-/
import Yams.CandidateStaging
import Yams.CatalogCheck

namespace Yams.Init

open FileTree Wiki

section Nodes

def expectedDirectories : InitMode → List Text
  | .minimal => [".agents".toList, memoryPath]
  | .full => [".agents".toList, memoryPath, pagesPath]

/-- The nodes that a mode owns, with directories and files where they are expected. -/
structure OwnedNodes (desired : DesiredMap) (mode : InitMode) : Prop where
  set : validSet desired mode = true
  directories : ∀ path ∈ expectedDirectories mode, ∃ bits,
    desired[path]? = some (.directory bits)
  files : ∀ path ∈ desired, path ∉ expectedDirectories mode → ∃ bits bytes,
    desired[path]? = some (.file bits bytes)

variable {desired : DesiredMap} {mode : InitMode} {path : Text}

theorem pageName_eq_some {name : Text} (h : pageName path = some name) :
    path = pagePathOf name := by
  rw [stripPrefix_eq_some h, pagePathOf, List.append_assoc, List.singleton_append]

theorem base_of_validSet (h : validSet desired mode = true)
    (hpath : path ∈ expectedBase mode) : path ∈ desired := by
  unfold validSet at h
  cases mode with
  | minimal =>
      have hall := (Bool.and_eq_true_iff.1 h).2
      exact Std.ExtTreeMap.contains_iff_mem.1 (List.all_eq_true.1 hall path hpath)
  | full =>
      have hall := (Bool.and_eq_true_iff.1 h).1
      exact Std.ExtTreeMap.contains_iff_mem.1 (List.all_eq_true.1 hall path hpath)

theorem OwnedNodes.base (h : OwnedNodes desired mode) (hpath : path ∈ expectedBase mode) :
    path ∈ desired :=
  base_of_validSet h.set hpath

/-- A node of a mode is one of its base or, in a full layout, a page. -/
theorem OwnedNodes.mem (h : OwnedNodes desired mode) (hpath : path ∈ desired) :
    path ∈ expectedBase mode ∨
      mode = .full ∧ ∃ name, path = pagePathOf name ∧ name ≠ [] ∧ '/' ∉ name := by
  have hkey : path ∈ desired.keys := Std.ExtTreeMap.mem_keys.2 hpath
  have hset := h.set
  unfold validSet at hset
  cases mode with
  | minimal =>
      have hall := (Bool.and_eq_true_iff.1 hset).1
      exact .inl (List.contains_iff_mem.1 (List.all_eq_true.1 hall path hkey))
  | full =>
      have hall := List.all_eq_true.1 (Bool.and_eq_true_iff.1 hset).2 path hkey
      rcases Bool.or_eq_true_iff.1 hall with hbase | hpage
      · exact .inl (List.contains_iff_mem.1 hbase)
      · obtain ⟨name, hname, hok⟩ := (Option.any_eq_true _ _).1 hpage
        obtain ⟨hne, hslash, -⟩ := of_decide_eq_true hok
        exact .inr ⟨rfl, name, pageName_eq_some hname, hne, hslash⟩

theorem ancestors_base (hpath : path ∈ expectedBase mode) :
    ∀ dir ∈ ancestors path, dir ∈ expectedDirectories mode := by
  have hall : ∀ path ∈ expectedBase mode, ∀ dir ∈ ancestors path,
      dir ∈ expectedDirectories mode := by
    cases mode <;> decide
  exact hall path hpath

theorem ancestors_page {name : Text} (hname : '/' ∉ name) :
    ancestors (pagePathOf name) = expectedDirectories .full := by
  rw [pagePathOf, ancestors_entry pagesPath hname]
  decide

theorem OwnedNodes.ancestors (h : OwnedNodes desired mode) (hpath : path ∈ desired) :
    ∀ dir ∈ FileTree.ancestors path, dir ∈ expectedDirectories mode := by
  rcases h.mem hpath with hbase | ⟨rfl, name, rfl, -, hslash⟩
  · exact ancestors_base hbase
  · rw [ancestors_page hslash]
    exact fun dir hdir => hdir

theorem OwnedNodes.closed (h : OwnedNodes desired mode) : Closed desired :=
  fun _ hpath dir hdir => h.directories dir (h.ancestors hpath dir hdir)

theorem pageName_pagePathOf (name : Text) : pageName (pagePathOf name) = some name := by
  rw [pageName, pagePathOf, ← List.singleton_append, ← List.append_assoc]
  exact stripPrefix_append _ name

theorem OwnedNodes.page {name : Text} (h : OwnedNodes desired .full)
    (hpath : path ∈ desired) (hname : pageName path = some name) :
    name ≠ [] ∧ '/' ∉ name := by
  rcases h.mem hpath with hbase | ⟨-, other, rfl, hother⟩
  · have hall : ∀ path ∈ expectedBase .full,
        (pageName path).all (fun name => name ≠ [] ∧ '/' ∉ name) = true := by decide
    have hok := hall path hbase
    rw [hname] at hok
    exact of_decide_eq_true hok
  · rw [pageName_pagePathOf] at hname
    rw [← Option.some.inj hname]
    exact hother

end Nodes

section Reading

variable {host : Host} {desired : DesiredMap} {mode : InitMode} {tree : Tree}
  {path : Text}

/-- The tree of a staged candidate. -/
def Shows (desired : DesiredMap) (tree : Tree) : Prop :=
  ∀ path : Text, tree[path]? = desired[path]?.map finalNode

/-- The modes let the owner get to a path. -/
def MayReach (host : Host) (desired : DesiredMap) (path : Text) : Prop :=
  ∀ dir ∈ ancestors path, ∀ bits, desired[dir]? = some (.directory bits) →
    host.permits ownerSearches bits = true

/-- The modes let the owner read the file at a path. -/
def MayRead (host : Host) (desired : DesiredMap) (path : Text) : Prop :=
  MayReach host desired path ∧ ∀ bits bytes, desired[path]? = some (.file bits bytes) →
    host.permits ownerReads bits = true

theorem Shows.directory (h : Shows desired tree) {bits : UInt32} :
    tree[path]? = some (.directory bits) ↔
      ∃ mode, desired[path]? = some (.directory mode) ∧ bits = keptMode mode := by
  rw [h path]
  cases desired[path]? with
  | none => simp
  | some node =>
      cases node with
      | directory mode => simp [finalNode, eq_comm]
      | file mode bytes => simp [finalNode]

theorem Shows.file (h : Shows desired tree) {bits : UInt32} {bytes : Bytes} :
    tree[path]? = some (.file bits bytes) ↔
      ∃ mode, desired[path]? = some (.file mode bytes) ∧ bits = keptMode mode := by
  rw [h path]
  cases desired[path]? with
  | none => simp
  | some node =>
      cases node with
      | directory mode => simp [finalNode]
      | file mode found => simp [finalNode, eq_comm, and_comm]

theorem Shows.reaches (h : Shows desired tree) (howned : OwnedNodes desired mode)
    (hpath : path ∈ desired) : Reaches host tree path ↔ MayReach host desired path := by
  constructor
  · intro hreaches dir hdir bits hbits
    obtain ⟨found, hfound, hsearch⟩ := hreaches dir hdir
    obtain ⟨other, hother, rfl⟩ := h.directory.1 hfound
    rw [hbits] at hother
    obtain rfl := DesiredNode.directory.inj (Option.some.inj hother)
    rwa [permits_keptMode (by decide)] at hsearch
  · intro hreach dir hdir
    obtain ⟨bits, hbits⟩ := howned.closed path hpath dir hdir
    refine ⟨keptMode bits, h.directory.2 ⟨bits, hbits, rfl⟩, ?_⟩
    rw [permits_keptMode (by decide)]
    exact hreach dir hdir bits hbits

theorem desiredFile_eq_ok {bytes : Bytes} :
    desiredFile desired path = .ok bytes ↔
      ∃ bits, desired[path]? = some (.file bits bytes) := by
  unfold desiredFile
  cases desired[path]? with
  | none => simp
  | some node => cases node <;> simp

/-- A staged file is read as far as the modes allow. -/
theorem Shows.readFile (h : Shows desired tree) (howned : OwnedNodes desired mode)
    {bytes : Bytes} :
    FileTree.readFile host tree path = .ok bytes ↔
      MayRead host desired path ∧ desiredFile desired path = .ok bytes := by
  rw [readFile_eq_ok, desiredFile_eq_ok]
  constructor
  · rintro ⟨hreaches, bits, hbits, hread⟩
    obtain ⟨mode, hmode, rfl⟩ := h.file.1 hbits
    have hreach := (h.reaches howned (mem_of_getElem? hmode)).1 hreaches
    refine ⟨⟨hreach, ?_⟩, mode, hmode⟩
    intro other found hother
    rw [hmode] at hother
    obtain ⟨rfl, -⟩ := DesiredNode.file.inj (Option.some.inj hother)
    rwa [permits_keptMode (by decide)] at hread
  · rintro ⟨⟨hreach, hread⟩, mode, hmode⟩
    refine ⟨(h.reaches howned (mem_of_getElem? hmode)).2 hreach, keptMode mode,
      h.file.2 ⟨mode, hmode, rfl⟩, ?_⟩
    rw [permits_keptMode (by decide)]
    exact hread mode bytes hmode

/-- The nodes of a staged candidate stand in the order of their paths. -/
theorem Shows.toList (h : Shows desired tree) :
    tree.toList = desired.toList.map fun entry => (entry.1, finalNode entry.2) := by
  have hmap : tree = desired.map fun _ node => finalNode node := by
    apply Std.ExtTreeMap.ext_getElem?
    intro path
    rw [h path, Std.ExtTreeMap.getElem?_map]
  rw [hmap, Std.ExtTreeMap.toList_map]

theorem ioError_eq_ok {α : Type} {operation : Text} {result : Except Fault α} {a : α} :
    ioError operation path result = .ok a ↔ result = .ok a :=
  except_mapError_eq_ok

theorem require_eq_ok {condition : Bool} {message : Text} :
    require condition message = .ok () ↔ condition = true := by
  unfold require
  split
  next h => simp [h]
  next h => simp [h]

theorem require_bind_eq_ok {α : Type} {condition : Bool} {message : Text}
    {next : Unit → Except InitError α} {a : α} :
    (require condition message >>= next) = .ok a ↔ condition = true ∧ next () = .ok a := by
  rw [except_bind_eq_ok]
  constructor
  · rintro ⟨_, hcondition, hnext⟩
    exact ⟨require_eq_ok.1 hcondition, hnext⟩
  · rintro ⟨hcondition, hnext⟩
    exact ⟨(), require_eq_ok.2 hcondition, hnext⟩

end Reading

section Pages

variable {host : Host} {desired : DesiredMap} {tree : Tree}

/-- The names and nodes under `pages/`. -/
def pageEntries (desired : DesiredMap) : List (Text × DesiredNode) :=
  desired.toList.filterMap fun entry => (pageName entry.1).map fun name => (name, entry.2)

/-- The entries under `pages/` in the order of the bytes of their names. -/
def sortedEntries (desired : DesiredMap) : List (Text × DesiredNode) :=
  sortBy (fun left right => compare left.1.toBytes right.1.toBytes) (pageEntries desired)

def capturedPage (entry : Text × DesiredNode) : CapturedPage :=
  match entry.2 with
  | .file _ bytes => ⟨entry.1.toBytes, .present bytes⟩
  | .directory _ => ⟨entry.1.toBytes, .notRegular⟩

/-- The pages that the validation in memory looks at. -/
def ownedPages (desired : DesiredMap) : List CapturedPage :=
  sortBy (fun left right : CapturedPage => compare left.name right.name)
    (desired.toList.filterMap ownedPage)

theorem name_capturedPage (entry : Text × DesiredNode) :
    (capturedPage entry).name = entry.1.toBytes := by
  obtain ⟨name, node⟩ := entry
  cases node <;> rfl

theorem ownedPages_eq (desired : DesiredMap) :
    ownedPages desired = (sortedEntries desired).map capturedPage := by
  have hpages : desired.toList.filterMap ownedPage =
      (pageEntries desired).map capturedPage := by
    rw [pageEntries, List.map_filterMap]
    apply List.filterMap_congr
    rintro ⟨path, node⟩ -
    rw [ownedPage, Option.map_map]
    cases node <;> rfl
  rw [ownedPages, hpages, sortBy_map, sortedEntries]
  simp only [name_capturedPage]

theorem mem_sortedEntries {entry : Text × DesiredNode}
    (howned : OwnedNodes desired .full) (h : entry ∈ sortedEntries desired) :
    ∃ bits bytes, entry.2 = .file bits bytes ∧
      desired[pagePathOf entry.1]? = some (.file bits bytes) := by
  rw [sortedEntries, mem_sortBy, pageEntries, List.mem_filterMap] at h
  obtain ⟨⟨path, node⟩, hmem, hentry⟩ := h
  obtain ⟨name, hname, rfl⟩ := Option.map_eq_some_iff.1 hentry
  have hnode := mem_toList.1 hmem
  obtain ⟨hne, hslash⟩ := howned.page (mem_of_getElem? hnode) hname
  obtain rfl := pageName_eq_some hname
  have hother : pagePathOf name ∉ expectedDirectories .full := by
    intro hdir
    have hdepth : ∀ dir ∈ expectedDirectories .full, dir.count '/' ≤ 2 := by decide
    have hcount := hdepth _ hdir
    have hpages : pagesPath.count '/' = 2 := by decide
    rw [pagePathOf, List.count_append, List.count_cons_self, hpages] at hcount
    omega
  obtain ⟨bits, bytes, hfile⟩ := howned.files _ (mem_of_getElem? hnode) hother
  refine ⟨bits, bytes, ?_, hfile⟩
  rw [hnode] at hfile
  exact Option.some.inj hfile

theorem sortedEntries_of_page {name : Text} {node : DesiredNode}
    (h : desired[pagePathOf name]? = some node) : (name, node) ∈ sortedEntries desired := by
  rw [sortedEntries, mem_sortBy, pageEntries, List.mem_filterMap]
  refine ⟨(pagePathOf name, node), mem_toList.2 h, ?_⟩
  dsimp only
  rw [pageName_pagePathOf]
  rfl

/-- The staged directory lists the names under `pages/`. -/
theorem Shows.names (h : Shows desired tree) (howned : OwnedNodes desired .full) :
    (tree.toList.filterMap fun entry => childName pagesPath entry.1) =
      (pageEntries desired).map Prod.fst := by
  rw [h.toList, List.filterMap_map, pageEntries, List.map_filterMap]
  apply List.filterMap_congr
  rintro ⟨path, node⟩ hmem
  have hpath := mem_of_getElem? (mem_toList.1 hmem)
  rw [Option.map_map]
  change childName pagesPath path = (pageName path).map fun name => name
  rw [Option.map_id']
  have hstrip : Text.stripPrefix (pagesPath ++ ['/']) path = pageName path := rfl
  rw [childName, hstrip]
  cases hname : pageName path with
  | none => rfl
  | some name =>
      obtain ⟨hne, hslash⟩ := howned.page hpath hname
      exact if_neg (not_or.2 ⟨hne, hslash⟩)

theorem Shows.capturePage (h : Shows desired tree) (howned : OwnedNodes desired .full)
    {name : Text} {bits : UInt32} {bytes : Bytes} {page : CapturedPage}
    (hnode : desired[pagePathOf name]? = some (.file bits bytes)) :
    Init.capturePage host tree name = .ok page ↔
      MayRead host desired (pagePathOf name) ∧ page = ⟨name.toBytes, .present bytes⟩ := by
  have hfile : desiredFile desired (pagePathOf name) = .ok bytes :=
    desiredFile_eq_ok.2 ⟨bits, hnode⟩
  have htree : tree[pagePathOf name]? = some (.file (keptMode bits) bytes) :=
    h.file.2 ⟨bits, hnode, rfl⟩
  rw [Init.capturePage, except_bind_eq_ok]
  constructor
  · rintro ⟨node, hlookup, hpage⟩
    obtain ⟨-, hfound⟩ := lookup_eq_ok.1 (ioError_eq_ok.1 hlookup)
    rw [htree] at hfound
    obtain rfl := Option.some.inj hfound
    obtain ⟨found, hread, hpage⟩ := except_bind_eq_ok.1 hpage
    obtain ⟨hmay, hok⟩ := (h.readFile howned).1 (ioError_eq_ok.1 hread)
    rw [hfile] at hok
    obtain rfl := Except.ok.inj hok
    exact ⟨hmay, (Except.ok.inj hpage).symm⟩
  · rintro ⟨hmay, rfl⟩
    have hread := (h.readFile howned).2 ⟨hmay, hfile⟩
    have hreaches := (readFile_eq_ok.1 hread).1
    refine ⟨_, ioError_eq_ok.2 (lookup_eq_ok.2 ⟨hreaches, htree⟩), ?_⟩
    dsimp only
    rw [ioError_eq_ok.2 hread]
    rfl

theorem Shows.capturePages (h : Shows desired tree) (howned : OwnedNodes desired .full)
    {entries : List (Text × DesiredNode)} {pages : List CapturedPage}
    (hentries : ∀ entry ∈ entries, ∃ bits bytes, entry.2 = .file bits bytes ∧
      desired[pagePathOf entry.1]? = some (.file bits bytes)) :
    Init.capturePages host tree (entries.map Prod.fst) = .ok pages ↔
      (∀ entry ∈ entries, MayRead host desired (pagePathOf entry.1)) ∧
        pages = entries.map capturedPage := by
  induction entries generalizing pages with
  | nil => simp [Init.capturePages, eq_comm]
  | cons entry entries ih =>
      obtain ⟨name, node⟩ := entry
      obtain ⟨bits, bytes, rfl, hnode⟩ := hentries _ List.mem_cons_self
      have hrest {pages : List CapturedPage} := @ih pages fun other hother =>
        hentries other (List.mem_cons_of_mem _ hother)
      rw [List.map_cons, Init.capturePages, except_bind_eq_ok, List.forall_mem_cons]
      constructor
      · rintro ⟨page, hpage, hpages⟩
        obtain ⟨others, hothers, hpages⟩ := except_bind_eq_ok.1 hpages
        obtain ⟨hmay, rfl⟩ := (h.capturePage howned hnode).1 hpage
        obtain ⟨hall, rfl⟩ := hrest.1 hothers
        exact ⟨⟨hmay, hall⟩, (Except.ok.inj hpages).symm⟩
      · rintro ⟨⟨hmay, hall⟩, rfl⟩
        refine ⟨_, (h.capturePage howned hnode).2 ⟨hmay, rfl⟩, ?_⟩
        rw [hrest.2 ⟨hall, rfl⟩]
        rfl

end Pages

section Contents

variable [Unicode]

/-- The bytes of a file with the canonical policy. -/
def PolicyText (bytes : Bytes) : Prop :=
  ∃ agents, Text.fromUtf8 bytes = some agents ∧
    (inspectPolicy agents).headingCount = 1 ∧ (inspectPolicy agents).exact = true

/-- The bytes of a page with the slug of the project. -/
def ProjectPage (bytes : Bytes) : Prop :=
  ∃ source page, Text.fromUtf8 bytes = some source ∧ parseWikiPage source = .ok page ∧
    page.slug = "project-context".toList

def snapshotOf (corpus : PathBuf) (index : Bytes) (pages : List CapturedPage) :
    WikiSnapshot where
  corpus := corpus
  index := index
  pages := pages
  isolated := true
  isolationNote := none

def SoundWiki (snapshot : WikiSnapshot) : Prop :=
  (validateWiki snapshot).failures = [] ∧ (compatSnapshot snapshot).violations = []

/-- Where a wiki lies only shows in a message about bytes that are no text. -/
theorem soundWiki_corpus (corpus other : PathBuf) (index : Bytes)
    (pages : List CapturedPage) :
    SoundWiki (snapshotOf corpus index pages) ↔
      SoundWiki (snapshotOf other index pages) := by
  have hfailures : (validateWiki (snapshotOf corpus index pages)).failures = [] ↔
      (validateWiki (snapshotOf other index pages)).failures = [] := by
    unfold validateWiki
    dsimp only [snapshotOf]
    cases Text.fromUtf8 index with
    | none => simp
    | some source => exact Iff.rfl
  unfold SoundWiki
  rw [hfailures]
  exact Iff.rfl

variable (desired : DesiredMap)

def PolicyAccepted : Prop :=
  ∃ bytes, desiredFile desired agentsPath = .ok bytes ∧ PolicyText bytes

omit [Unicode] in
def GitignoreEmbedded : Prop :=
  desiredFile desired gitignorePath = .ok memoryGitignore.toBytes

def PageAccepted : Prop :=
  ∃ bytes, desiredFile desired flatPagePath = .ok bytes ∧ ProjectPage bytes

def CorpusAccepted : Prop :=
  desiredFile desired schemaPath = .ok schema.toBytes ∧
    ∃ index, desiredFile desired indexPath = .ok index ∧
      SoundWiki (snapshotOf (Text.toBytes "<owned-candidate>".toList) index
        (ownedPages desired))

/-- The rules for contents that both validators have. -/
def ContentsAccepted : InitMode → Prop
  | .minimal => PolicyAccepted desired ∧ PageAccepted desired
  | .full => PolicyAccepted desired ∧ GitignoreEmbedded desired ∧ CorpusAccepted desired

variable {desired} {mode : InitMode}

theorem projectPage_eq_ok {source : Text} :
    (match parseWikiPage source with
      | .error error => Except.error (InitError.candidate error.message)
      | .ok page => require (page.slug = "project-context".toList)
          "candidate flat page slug is not project-context".toList) = .ok () ↔
      ∃ page, parseWikiPage source = .ok page ∧ page.slug = "project-context".toList := by
  cases parseWikiPage source with
  | error error =>
      constructor
      · intro h
        cases h
      · rintro ⟨page, hpage, -⟩
        cases hpage
  | ok page =>
      constructor
      · intro h
        exact ⟨page, rfl, of_decide_eq_true (require_eq_ok.1 h)⟩
      · rintro ⟨other, hother, hslug⟩
        obtain rfl := Except.ok.inj hother
        exact require_eq_ok.2 (decide_eq_true hslug)

theorem validateOwnedMinimal_eq_ok :
    validateOwnedMinimal desired = .ok () ↔ PageAccepted desired := by
  rw [validateOwnedMinimal, except_bind_eq_ok]
  apply exists_congr
  intro bytes
  apply and_congr_right
  intro _
  unfold ProjectPage
  cases Text.fromUtf8 bytes with
  | none =>
      constructor
      · intro h
        cases h
      · rintro ⟨source, page, hsource, -⟩
        cases hsource
  | some source =>
      constructor
      · intro h
        obtain ⟨page, hpage⟩ := projectPage_eq_ok.1 h
        exact ⟨source, page, rfl, hpage⟩
      · rintro ⟨other, page, hother, hpage⟩
        obtain rfl := Option.some.inj hother
        exact projectPage_eq_ok.2 ⟨page, hpage⟩

theorem validateOwnedFull_eq_ok :
    validateOwnedFull desired = .ok () ↔
      GitignoreEmbedded desired ∧ CorpusAccepted desired := by
  rw [validateOwnedFull, except_bind_eq_ok]
  constructor
  · rintro ⟨gitignore, hgitignore, hrest⟩
    obtain ⟨hbytes, hrest⟩ := require_bind_eq_ok.1 hrest
    obtain ⟨found, hfound, hrest⟩ := except_bind_eq_ok.1 hrest
    obtain ⟨hschema, hrest⟩ := require_bind_eq_ok.1 hrest
    obtain ⟨index, hindex, hrest⟩ := except_bind_eq_ok.1 hrest
    obtain ⟨hfailures, hrest⟩ := require_bind_eq_ok.1 hrest
    have hviolations := require_eq_ok.1 hrest
    rw [of_decide_eq_true hbytes] at hgitignore
    rw [of_decide_eq_true hschema] at hfound
    exact ⟨hgitignore, hfound, index, hindex, of_decide_eq_true hfailures,
      of_decide_eq_true hviolations⟩
  · rintro ⟨hgitignore, hschema, index, hindex, hfailures, hviolations⟩
    refine ⟨_, hgitignore, require_bind_eq_ok.2 ⟨decide_eq_true rfl, ?_⟩⟩
    apply except_bind_eq_ok.2
    refine ⟨_, hschema, require_bind_eq_ok.2 ⟨decide_eq_true rfl, ?_⟩⟩
    apply except_bind_eq_ok.2
    refine ⟨index, hindex, require_bind_eq_ok.2 ⟨decide_eq_true hfailures, ?_⟩⟩
    exact require_eq_ok.2 (decide_eq_true hviolations)

omit [Unicode] in
/-- The rules of a mode after those for the policy. -/
theorem validateOwned_rest (next : Except InitError Unit) {bytes : Bytes}
    {rejected message : Text} :
    (match Text.fromUtf8 bytes with
      | none => Except.error (InitError.candidate rejected)
      | some agents => do
          require ((inspectPolicy agents).headingCount = 1 ∧ (inspectPolicy agents).exact)
            message
          next) = .ok () ↔ PolicyText bytes ∧ next = .ok () := by
  unfold PolicyText
  cases Text.fromUtf8 bytes with
  | none =>
      constructor
      · intro h
        cases h
      · rintro ⟨⟨agents, hagents, -⟩, -⟩
        cases hagents
  | some agents =>
      constructor
      · intro h
        obtain ⟨hpolicy, hnext⟩ := require_bind_eq_ok.1 h
        exact ⟨⟨agents, rfl, of_decide_eq_true hpolicy⟩, hnext⟩
      · rintro ⟨⟨other, hother, hpolicy⟩, hnext⟩
        obtain rfl := Option.some.inj hother
        exact require_bind_eq_ok.2 ⟨decide_eq_true hpolicy, hnext⟩

omit [Unicode] in
theorem requireDirectory_bind {path : Text} {bits : UInt32}
    (h : desired[path]? = some (.directory bits)) (next : Unit → Except InitError Unit) :
    (requireDirectory desired path >>= next) = next () := by
  have hdirectory : isCandidateDirectory desired path = true := by
    unfold isCandidateDirectory
    rw [h]
  rw [requireDirectory, require, hdirectory, if_pos rfl, except_ok_bind]

/-- The map with the nodes of its mode is accepted exactly for its contents. -/
theorem validateOwnedCandidate_eq_ok (howned : OwnedNodes desired mode) :
    validateOwnedCandidate desired mode = .ok () ↔ ContentsAccepted desired mode := by
  have hdirectory {path : Text} (hpath : path ∈ expectedDirectories mode)
      (next : Unit → Except InitError Unit) :
      (requireDirectory desired path >>= next) = next () := by
    obtain ⟨bits, hbits⟩ := howned.directories path hpath
    exact requireDirectory_bind hbits next
  have hpolicy (next : Except InitError Unit) : (∃ bytes,
      desiredFile desired agentsPath = .ok bytes ∧ PolicyText bytes ∧ next = .ok ()) ↔
      PolicyAccepted desired ∧ next = .ok () := by
    constructor
    · rintro ⟨bytes, hbytes, htext, hnext⟩
      exact ⟨⟨bytes, hbytes, htext⟩, hnext⟩
    · rintro ⟨⟨bytes, hbytes, htext⟩, hnext⟩
      exact ⟨bytes, hbytes, htext, hnext⟩
  unfold validateOwnedCandidate
  rw [require_bind_eq_ok, and_iff_right howned.set]
  cases mode with
  | minimal =>
      rw [hdirectory (by decide), hdirectory (by decide), ContentsAccepted,
        ← validateOwnedMinimal_eq_ok, ← hpolicy, if_neg (by decide), except_ok_bind,
        except_bind_eq_ok]
      apply exists_congr
      intro bytes
      apply and_congr_right
      intro _
      exact validateOwned_rest _
  | full =>
      rw [hdirectory (by decide), hdirectory (by decide), ContentsAccepted,
        ← validateOwnedFull_eq_ok, ← hpolicy, if_pos rfl, hdirectory (by decide),
        except_bind_eq_ok]
      apply exists_congr
      intro bytes
      apply and_congr_right
      intro _
      exact validateOwned_rest _

end Contents

section Staged

variable [Unicode] {host : Host} {desired : DesiredMap} {mode : InitMode} {tree : Tree}
  {root : PathBuf}

/-- The modes let the owner list the pages. -/
def MayList (host : Host) (desired : DesiredMap) : Prop :=
  MayReach host desired pagesPath ∧ ∀ bits,
    desired[pagesPath]? = some (.directory bits) → host.permits ownerReads bits = true

omit [Unicode] in
theorem Shows.readDirectory (h : Shows desired tree) (howned : OwnedNodes desired .full)
    {names : List Text} :
    FileTree.readDirectory host tree pagesPath = .ok names ↔
      MayList host desired ∧ names = (pageEntries desired).map Prod.fst := by
  obtain ⟨mode, hmode⟩ := howned.directories pagesPath (by decide)
  rw [readDirectory_eq_ok, h.names howned, h.reaches howned (mem_of_getElem? hmode), MayList,
    and_assoc]
  apply and_congr_right
  intro _
  apply and_congr_left
  intro _
  constructor
  · rintro ⟨bits, hbits, hread⟩ other hother
    obtain ⟨found, hfound, rfl⟩ := h.directory.1 hbits
    rw [hother] at hfound
    obtain rfl := DesiredNode.directory.inj (Option.some.inj hfound)
    rwa [permits_keptMode (by decide)] at hread
  · intro hread
    refine ⟨keptMode mode, h.directory.2 ⟨mode, hmode, rfl⟩, ?_⟩
    rw [permits_keptMode (by decide)]
    exact hread mode hmode

omit [Unicode] in
/-- A staged text is read as far as the modes allow. -/
theorem Shows.readToString (h : Shows desired tree) (howned : OwnedNodes desired mode)
    {path source : Text} :
    Init.readToString host tree path = .ok source ↔
      MayRead host desired path ∧ ∃ bytes, desiredFile desired path = .ok bytes ∧
        Text.fromUtf8 bytes = some source := by
  rw [Init.readToString, except_bind_eq_ok]
  constructor
  · rintro ⟨bytes, hread, hsource⟩
    obtain ⟨hmay, hbytes⟩ := (h.readFile howned).1 hread
    refine ⟨hmay, bytes, hbytes, ?_⟩
    cases htext : Text.fromUtf8 bytes with
    | none =>
        rw [htext] at hsource
        cases hsource
    | some found =>
        rw [htext] at hsource
        exact congrArg some (Except.ok.inj hsource)
  · rintro ⟨hmay, bytes, hbytes, hsource⟩
    refine ⟨bytes, (h.readFile howned).2 ⟨hmay, hbytes⟩, ?_⟩
    rw [hsource]

theorem validateMinimalCandidate_eq_ok (h : Shows desired tree)
    (howned : OwnedNodes desired mode) :
    validateMinimalCandidate host tree = .ok () ↔
      (MayRead host desired gitignorePath ∧ GitignoreEmbedded desired) ∧
        MayRead host desired flatPagePath ∧ PageAccepted desired := by
  rw [validateMinimalCandidate, except_bind_eq_ok]
  constructor
  · rintro ⟨gitignore, hgitignore, hrest⟩
    obtain ⟨hbytes, hrest⟩ := require_bind_eq_ok.1 hrest
    obtain ⟨source, hsource, hrest⟩ := except_bind_eq_ok.1 hrest
    have hread := (h.readFile howned).1 (ioError_eq_ok.1 hgitignore)
    rw [of_decide_eq_true hbytes] at hread
    obtain ⟨hmay, bytes, hfile, htext⟩ := (h.readToString howned).1 (ioError_eq_ok.1 hsource)
    obtain ⟨page, hpage⟩ := projectPage_eq_ok.1 hrest
    exact ⟨hread, hmay, bytes, hfile, source, page, htext, hpage⟩
  · rintro ⟨hread, hmay, bytes, hfile, source, page, htext, hpage⟩
    refine ⟨_, ioError_eq_ok.2 ((h.readFile howned).2 hread),
      require_bind_eq_ok.2 ⟨decide_eq_true rfl, ?_⟩⟩
    apply except_bind_eq_ok.2
    refine ⟨source, ioError_eq_ok.2 ((h.readToString howned).2 ⟨hmay, bytes, hfile, htext⟩), ?_⟩
    exact projectPage_eq_ok.2 ⟨page, hpage⟩

/-- The files and the directory that the validation of a full candidate reads. -/
structure MayReadFull (host : Host) (desired : DesiredMap) : Prop where
  gitignore : MayRead host desired gitignorePath
  schema : MayRead host desired schemaPath
  index : MayRead host desired indexPath
  list : MayList host desired
  pages : ∀ entry ∈ sortedEntries desired, MayRead host desired (pagePathOf entry.1)

theorem validateFullCandidate_eq_ok (h : Shows desired tree)
    (howned : OwnedNodes desired .full) :
    validateFullCandidate host tree root = .ok () ↔
      MayReadFull host desired ∧ GitignoreEmbedded desired ∧ CorpusAccepted desired := by
  have hsorted {names : List Text} (hnames : names = (pageEntries desired).map Prod.fst) :
      sortBy (fun left right => compare left.toBytes right.toBytes) names =
        (sortedEntries desired).map Prod.fst := by
    rw [hnames, sortBy_map, sortedEntries]
  have hpages {pages : List CapturedPage} :
      Init.capturePages host tree ((sortedEntries desired).map Prod.fst) = .ok pages ↔
        (∀ entry ∈ sortedEntries desired, MayRead host desired (pagePathOf entry.1)) ∧
          pages = (sortedEntries desired).map capturedPage :=
    h.capturePages howned fun entry hentry => mem_sortedEntries howned hentry
  rw [validateFullCandidate, except_bind_eq_ok]
  constructor
  · rintro ⟨gitignore, hgitignore, hrest⟩
    obtain ⟨hbytes, hrest⟩ := require_bind_eq_ok.1 hrest
    obtain ⟨found, hfound, hrest⟩ := except_bind_eq_ok.1 hrest
    obtain ⟨hschema, hrest⟩ := require_bind_eq_ok.1 hrest
    obtain ⟨index, hindex, hrest⟩ := except_bind_eq_ok.1 hrest
    obtain ⟨names, hnames, hrest⟩ := except_bind_eq_ok.1 hrest
    obtain ⟨pages, hcaptured, hrest⟩ := except_bind_eq_ok.1 hrest
    obtain ⟨hfailures, hrest⟩ := require_bind_eq_ok.1 hrest
    have hviolations := require_eq_ok.1 hrest
    obtain ⟨hgitignoreMay, hgitignore⟩ := (h.readFile howned).1 (ioError_eq_ok.1 hgitignore)
    obtain ⟨hschemaMay, hfound⟩ := (h.readFile howned).1 (ioError_eq_ok.1 hfound)
    obtain ⟨hindexMay, hindex⟩ := (h.readFile howned).1 (ioError_eq_ok.1 hindex)
    obtain ⟨hlist, hnames⟩ := (h.readDirectory howned).1 (ioError_eq_ok.1 hnames)
    rw [hsorted hnames] at hcaptured
    obtain ⟨hpagesMay, rfl⟩ := hpages.1 hcaptured
    rw [of_decide_eq_true hbytes] at hgitignore
    rw [of_decide_eq_true hschema] at hfound
    refine ⟨⟨hgitignoreMay, hschemaMay, hindexMay, hlist, hpagesMay⟩, hgitignore, hfound,
      index, hindex, ?_⟩
    rw [ownedPages_eq]
    exact (soundWiki_corpus _ _ _ _).1
      ⟨of_decide_eq_true hfailures, of_decide_eq_true hviolations⟩
  · rintro ⟨hmay, hgitignore, hschema, index, hindex, hsound⟩
    rw [ownedPages_eq] at hsound
    obtain ⟨hfailures, hviolations⟩ :=
      (soundWiki_corpus _ (PathBytes.join root memoryPath.toBytes) _ _).1 hsound
    have hnames := (h.readDirectory howned).2 ⟨hmay.list, rfl⟩
    have hcaptured := hpages.2 ⟨hmay.pages, rfl⟩
    rw [← hsorted rfl] at hcaptured
    refine ⟨_, ioError_eq_ok.2 ((h.readFile howned).2 ⟨hmay.gitignore, hgitignore⟩),
      require_bind_eq_ok.2 ⟨decide_eq_true rfl, ?_⟩⟩
    apply except_bind_eq_ok.2
    refine ⟨_, ioError_eq_ok.2 ((h.readFile howned).2 ⟨hmay.schema, hschema⟩),
      require_bind_eq_ok.2 ⟨decide_eq_true rfl, ?_⟩⟩
    apply except_bind_eq_ok.2
    refine ⟨_, ioError_eq_ok.2 ((h.readFile howned).2 ⟨hmay.index, hindex⟩), ?_⟩
    apply except_bind_eq_ok.2
    refine ⟨_, ioError_eq_ok.2 hnames, ?_⟩
    apply except_bind_eq_ok.2
    refine ⟨_, hcaptured, require_bind_eq_ok.2 ⟨decide_eq_true hfailures, ?_⟩⟩
    exact require_eq_ok.2 (decide_eq_true hviolations)

/-- The modes let the owner read all files, search all directories and list the
pages. -/
structure Readable (host : Host) (desired : DesiredMap) : Prop where
  files : ∀ (path : Text) bits bytes, desired[path]? = some (.file bits bytes) →
    host.permits ownerReads bits = true
  directories : ∀ (path : Text) bits, desired[path]? = some (.directory bits) →
    host.permits ownerSearches bits = true
  pages : ∀ bits, desired[pagesPath]? = some (.directory bits) →
    host.permits ownerReads bits = true

omit [Unicode] in
theorem Readable.mayRead (h : Readable host desired) (path : Text) :
    MayRead host desired path :=
  ⟨fun dir _ => h.directories dir, h.files path⟩

omit [Unicode] in
theorem Readable.mayReadFull (h : Readable host desired) : MayReadFull host desired where
  gitignore := h.mayRead _
  schema := h.mayRead _
  index := h.mayRead _
  list := ⟨fun dir _ => h.directories dir, h.pages⟩
  pages := fun _ _ => h.mayRead _

omit [Unicode] in
/-- A file of a mode is none of its directories. -/
theorem OwnedNodes.file_not_directory (h : OwnedNodes desired mode) {path : Text}
    {bits : UInt32} {bytes : Bytes} (hfile : desired[path]? = some (.file bits bytes)) :
    path ∉ expectedDirectories mode := by
  intro hmem
  obtain ⟨other, hother⟩ := h.directories path hmem
  rw [hfile] at hother
  cases hother

omit [Unicode] in
theorem OwnedNodes.directory (h : OwnedNodes desired mode) {path : Text} {bits : UInt32}
    (hdir : desired[path]? = some (.directory bits)) : path ∈ expectedDirectories mode := by
  by_contra hnot
  obtain ⟨other, bytes, hother⟩ := h.files path (mem_of_getElem? hdir) hnot
  rw [hdir] at hother
  cases hother

omit [Unicode] in
theorem readable_minimal (howned : OwnedNodes desired .minimal)
    (hagents : MayRead host desired agentsPath)
    (hgitignore : MayRead host desired gitignorePath)
    (hpage : MayRead host desired flatPagePath) : Readable host desired := by
  constructor
  · intro path bits bytes hfile
    have hnot := howned.file_not_directory hfile
    have hall : ∀ path ∈ expectedBase .minimal, path ∉ expectedDirectories .minimal →
        path = agentsPath ∨ path = gitignorePath ∨ path = flatPagePath := by decide
    rcases howned.mem (mem_of_getElem? hfile) with hbase | ⟨hmode, -⟩
    · rcases hall path hbase hnot with rfl | rfl | rfl
      · exact hagents.2 bits bytes hfile
      · exact hgitignore.2 bits bytes hfile
      · exact hpage.2 bits bytes hfile
    · cases hmode
  · intro path bits hdir
    have hall : ∀ dir ∈ expectedDirectories .minimal, dir ∈ ancestors gitignorePath := by
      decide
    exact hgitignore.1 path (hall path (howned.directory hdir)) bits hdir
  · intro bits hdir
    exact absurd (howned.directory hdir) (by decide)

omit [Unicode] in
theorem readable_full (howned : OwnedNodes desired .full)
    (hagents : MayRead host desired agentsPath) (hmay : MayReadFull host desired) :
    Readable host desired := by
  have hpage {name : Text} {node : DesiredNode}
      (hnode : desired[pagePathOf name]? = some node) :
      MayRead host desired (pagePathOf name) :=
    hmay.pages (name, node) (sortedEntries_of_page hnode)
  constructor
  · intro path bits bytes hfile
    have hnot := howned.file_not_directory hfile
    have hall : ∀ path ∈ expectedBase .full, path ∉ expectedDirectories .full →
        path = agentsPath ∨ path = gitignorePath ∨ path = schemaPath ∨ path = indexPath ∨
          path = pagePathOf "project-context.md".toList := by decide
    rcases howned.mem (mem_of_getElem? hfile) with hbase | ⟨-, name, rfl, -⟩
    · rcases hall path hbase hnot with rfl | rfl | rfl | rfl | rfl
      · exact hagents.2 bits bytes hfile
      · exact hmay.gitignore.2 bits bytes hfile
      · exact hmay.schema.2 bits bytes hfile
      · exact hmay.index.2 bits bytes hfile
      · exact (hpage hfile).2 bits bytes hfile
    · exact (hpage hfile).2 bits bytes hfile
  · intro path bits hdir
    have hall : ∀ dir ∈ expectedDirectories .full,
        dir ∈ ancestors (pagePathOf "project-context.md".toList) := by decide
    have hbase : pagePathOf "project-context.md".toList ∈ desired :=
      howned.base (by decide)
    obtain ⟨node, hnode⟩ := exists_of_mem hbase
    exact (hpage hnode).1 path (hall path (howned.directory hdir)) bits hdir
  · exact hmay.list.2

/-- A staged candidate is accepted for its contents, if the modes let the owner read
it; in the minimal mode there is one rule more than for the map. -/
theorem validateCandidate_eq_ok (h : Shows desired tree)
    (howned : OwnedNodes desired mode) :
    validateCandidate host tree root mode = .ok () ↔
      Readable host desired ∧ ContentsAccepted desired mode ∧
        (mode = .minimal → GitignoreEmbedded desired) := by
  have hpolicy (next : Except InitError Unit) :
      (do
        let agents ← ioError "read candidate policy".toList agentsPath
          (Init.readToString host tree agentsPath)
        require ((inspectPolicy agents).headingCount = 1 ∧ (inspectPolicy agents).exact)
          "candidate AGENTS.md does not contain the canonical policy".toList
        next) = .ok () ↔
      MayRead host desired agentsPath ∧ PolicyAccepted desired ∧ next = .ok () := by
    rw [except_bind_eq_ok]
    constructor
    · rintro ⟨agents, hagents, hrest⟩
      obtain ⟨hpolicy, hnext⟩ := require_bind_eq_ok.1 hrest
      obtain ⟨hmay, bytes, hbytes, htext⟩ := (h.readToString howned).1 (ioError_eq_ok.1 hagents)
      exact ⟨hmay, ⟨bytes, hbytes, agents, htext, of_decide_eq_true hpolicy⟩, hnext⟩
    · rintro ⟨hmay, ⟨bytes, hbytes, agents, htext, hpolicy⟩, hnext⟩
      exact ⟨agents, ioError_eq_ok.2 ((h.readToString howned).2 ⟨hmay, bytes, hbytes, htext⟩),
        require_bind_eq_ok.2 ⟨decide_eq_true hpolicy, hnext⟩⟩
  cases mode with
  | minimal =>
      apply (hpolicy (validateMinimalCandidate host tree)).trans
      rw [validateMinimalCandidate_eq_ok h howned]
      constructor
      · rintro ⟨hagents, hpolicy, ⟨hgitignoreMay, hgitignore⟩, hpageMay, hpage⟩
        exact ⟨readable_minimal howned hagents hgitignoreMay hpageMay, ⟨hpolicy, hpage⟩,
          fun _ => hgitignore⟩
      · rintro ⟨hreadable, ⟨hpolicy, hpage⟩, hgitignore⟩
        exact ⟨hreadable.mayRead _, hpolicy, ⟨hreadable.mayRead _, hgitignore rfl⟩,
          hreadable.mayRead _, hpage⟩
  | full =>
      apply (hpolicy (validateFullCandidate host tree root)).trans
      rw [validateFullCandidate_eq_ok h howned]
      constructor
      · rintro ⟨hagents, hpolicy, hmay, hcontents⟩
        exact ⟨readable_full howned hagents hmay, ⟨hpolicy, hcontents⟩,
          fun hmode => nomatch hmode⟩
      · rintro ⟨hreadable, ⟨hpolicy, hcontents⟩, -⟩
        exact ⟨hreadable.mayRead _, hpolicy, hreadable.mayReadFull, hcontents⟩

/-- The staged candidate is accepted. -/
def StagedAccepted (host : Host) (root : PathBuf) (desired : DesiredMap)
    (mode : InitMode) : Prop :=
  ∃ tree, stageCandidate host desired ∅ = .ok tree ∧
    validateCandidate host tree root mode = .ok ()

theorem stagedAccepted_iff (howned : OwnedNodes desired mode) :
    StagedAccepted host root desired mode ↔
      (∀ path ∈ desired, host.takesPath path = true) ∧ Readable host desired ∧
        ContentsAccepted desired mode ∧ (mode = .minimal → GitignoreEmbedded desired) := by
  constructor
  · rintro ⟨tree, hstage, hvalid⟩
    obtain ⟨htakes, hshows⟩ := (stageCandidate_eq_ok howned.closed).1 hstage
    exact ⟨htakes, (validateCandidate_eq_ok hshows howned).1 hvalid⟩
  · rintro ⟨htakes, hvalid⟩
    let tree : Tree := desired.map fun _ node => finalNode node
    have hshows : Shows desired tree := fun path => Std.ExtTreeMap.getElem?_map
    exact ⟨tree, (stageCandidate_eq_ok howned.closed).2 ⟨htakes, hshows⟩,
      (validateCandidate_eq_ok hshows howned).2 hvalid⟩

/-- The two validations agree on a map exactly if its contents break a rule that both
have, or the file system takes its paths, its modes let the owner read it and, in the
minimal mode, its `.gitignore` is the embedded one. -/
theorem layout_contract_iff (host : Host) (root : PathBuf)
    (howned : OwnedNodes desired mode) :
    (StagedAccepted host root desired mode ↔
      validateOwnedCandidate desired mode = .ok ()) ↔
    (ContentsAccepted desired mode →
      (∀ path ∈ desired, host.takesPath path = true) ∧ Readable host desired ∧
        (mode = .minimal → GitignoreEmbedded desired)) := by
  rw [stagedAccepted_iff howned, validateOwnedCandidate_eq_ok howned]
  constructor
  · intro hagree hcontents
    obtain ⟨htakes, hreadable, -, hgitignore⟩ := hagree.2 hcontents
    exact ⟨htakes, hreadable, hgitignore⟩
  · intro hmeets
    constructor
    · rintro ⟨-, -, hcontents, -⟩
      exact hcontents
    · intro hcontents
      obtain ⟨htakes, hreadable, hgitignore⟩ := hmeets hcontents
      exact ⟨htakes, hreadable, hcontents, hgitignore⟩

end Staged

namespace LayoutWitness

local instance : Unicode := Unicode.ascii

def host : Host := ⟨false, fun path => !path.contains '\x00'⟩

def root : PathBuf := Text.toBytes "/tmp/candidate".toList

def page : Text :=
  ("---\nslug: project-context\ntitle: Context\ntype: project-state\n" ++
    "status: current\nowner: codex\nupdated: 2026-08-08\n" ++
    "verified: 2026-08-08\nsummary: what it is\n---\n\nA tool.\n").toList

/-- A minimal candidate with these bytes in its `.gitignore`. -/
def candidate (gitignore : Bytes) : DesiredMap :=
  Std.ExtTreeMap.ofList [
    (agentsPath, DesiredNode.file 0o644 agentPolicy.toBytes),
    (".agents".toList, .directory 0o755),
    (memoryPath, .directory 0o755),
    (gitignorePath, .file 0o644 gitignore),
    (flatPagePath, .file 0o644 page.toBytes)]


theorem toList_candidate (gitignore : Bytes) :
    (candidate gitignore).toList = [
      (".agents".toList, .directory 0o755),
      (memoryPath, .directory 0o755),
      (gitignorePath, .file 0o644 gitignore),
      (flatPagePath, .file 0o644 page.toBytes),
      (agentsPath, .file 0o644 agentPolicy.toBytes)] := rfl

/-- The nodes of a candidate are its five. -/
theorem candidate_cases {gitignore : Bytes} {path : Text} {node : DesiredNode}
    (h : (candidate gitignore)[path]? = some node) :
    path ∈ expectedDirectories .minimal ∧ node = .directory 0o755 ∨
      path ∈ [gitignorePath, flatPagePath, agentsPath] ∧
        ∃ bytes, node = .file 0o644 bytes := by
  have hmem := mem_toList.2 h
  rw [toList_candidate] at hmem
  simp only [List.mem_cons, List.not_mem_nil, or_false, Prod.mk.injEq] at hmem
  rcases hmem with ⟨rfl, rfl⟩ | ⟨rfl, rfl⟩ | ⟨rfl, rfl⟩ | ⟨rfl, rfl⟩ | ⟨rfl, rfl⟩
  · exact .inl ⟨by decide, rfl⟩
  · exact .inl ⟨by decide, rfl⟩
  · exact .inr ⟨by decide, _, rfl⟩
  · exact .inr ⟨by decide, _, rfl⟩
  · exact .inr ⟨by decide, _, rfl⟩

theorem owned (gitignore : Bytes) : OwnedNodes (candidate gitignore) .minimal := by
  refine ⟨rfl, ?_, ?_⟩
  · intro path hpath
    rcases List.mem_cons.1 hpath with rfl | hpath
    · exact ⟨_, rfl⟩
    · obtain rfl := List.mem_singleton.1 hpath
      exact ⟨_, rfl⟩
  · intro path hpath hnot
    obtain ⟨node, hnode⟩ := exists_of_mem hpath
    rcases candidate_cases hnode with ⟨hdir, -⟩ | ⟨-, bytes, rfl⟩
    · exact absurd hdir hnot
    · exact ⟨_, bytes, hnode⟩

theorem taken (gitignore : Bytes) :
    ∀ path ∈ candidate gitignore, host.takesPath path = true := by
  intro path hpath
  obtain ⟨node, hnode⟩ := exists_of_mem hpath
  have hall : ∀ path ∈ expectedDirectories .minimal ++
      [gitignorePath, flatPagePath, agentsPath], host.takesPath path = true := by decide
  rcases candidate_cases hnode with ⟨hmem, -⟩ | ⟨hmem, -⟩
  · exact hall path (List.mem_append_left _ hmem)
  · exact hall path (List.mem_append_right _ hmem)

theorem readable (gitignore : Bytes) : Readable host (candidate gitignore) := by
  constructor
  · intro path bits bytes hfile
    rcases candidate_cases hfile with ⟨-, hnode⟩ | ⟨-, found, hnode⟩
    · cases hnode
    · obtain ⟨rfl, -⟩ := DesiredNode.file.inj hnode
      decide
  · intro path bits hdir
    rcases candidate_cases hdir with ⟨-, hnode⟩ | ⟨-, found, hnode⟩
    · obtain rfl := DesiredNode.directory.inj hnode
      decide
    · cases hnode
  · intro bits hdir
    exact absurd ((owned gitignore).directory hdir) (by decide)

theorem projectPage : ProjectPage page.toBytes := by
  have hslug : ((parseWikiPage page).toOption.map fun page => page.slug) =
      some "project-context".toList := by
    unfold page
    repeat rw [String.toList_append]
    repeat rw [String.toList_ofList]
    decide
  cases hparse : parseWikiPage page with
  | error error =>
      rw [hparse] at hslug
      cases hslug
  | ok found =>
      rw [hparse] at hslug
      exact ⟨page, found, Text.fromUtf8_toBytes page, hparse, Option.some.inj hslug⟩

theorem contents (gitignore : Bytes) : ContentsAccepted (candidate gitignore) .minimal := by
  have hpolicy : PolicyText agentPolicy.toBytes :=
    ⟨agentPolicy, Text.fromUtf8_toBytes agentPolicy, by rw [inspectPolicy_agentPolicy],
      by rw [inspectPolicy_agentPolicy]⟩
  exact ⟨⟨_, rfl, hpolicy⟩, ⟨_, rfl, projectPage⟩⟩

theorem layout_contract_here :
    StagedAccepted host root (candidate memoryGitignore.toBytes) .minimal ↔
      validateOwnedCandidate (candidate memoryGitignore.toBytes) .minimal = .ok () :=
  (layout_contract_iff host root (owned memoryGitignore.toBytes)).2 fun _ =>
    ⟨taken _, readable _, fun _ => rfl⟩

/-- With an empty `.gitignore` the map is accepted, and the staged candidate is not. -/
theorem layout_contract_fails :
    OwnedNodes (candidate []) .minimal ∧
      ¬ (StagedAccepted host root (candidate []) .minimal ↔
        validateOwnedCandidate (candidate []) .minimal = .ok ()) := by
  refine ⟨owned [], fun hagree => ?_⟩
  have haccepted := hagree.2 ((validateOwnedCandidate_eq_ok (owned [])).2 (contents []))
  obtain ⟨-, -, -, hgitignore⟩ := (stagedAccepted_iff (owned [])).1 haccepted
  have hempty : desiredFile (candidate []) gitignorePath = .ok [] := rfl
  have hbytes := hgitignore rfl
  rw [GitignoreEmbedded, hempty] at hbytes
  have hlength := congrArg List.length (Except.ok.inj hbytes)
  revert hlength
  decide

end LayoutWitness
end Yams.Init
