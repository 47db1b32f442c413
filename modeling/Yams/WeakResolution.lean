/-
Weak resolution of a path: links are followed wherever they stand, a component that is
missing keeps its name, and at most forty links may be nested.
-/
import Yams.ListOrder
import Yams.Project

namespace Yams.WeakResolution

open PathBytes

section Model

/-- A path in the making: `PathBuf::new()`, with or without the root pushed. -/
structure Resolved where
  rooted : Bool
  names : List Bytes
  deriving DecidableEq

namespace Resolved

def start (path : PathBuf) : Resolved := ⟨isAbsolute path, []⟩

def push (resolved : Resolved) (name : Bytes) : Resolved :=
  { resolved with names := resolved.names ++ [name] }

/-- `PathBuf::pop`, which stops at the root. -/
def pop (resolved : Resolved) : Resolved := { resolved with names := resolved.names.dropLast }

def path (resolved : Resolved) : PathBuf :=
  if resolved.rooted then absolute resolved.names else List.intercalate [slash] resolved.names

end Resolved

variable (disk : Disk)

/-- One component: `resolve` is the resolution of the target of a link. -/
def followComponent (resolve : PathBuf → Except LayoutError Resolved) (resolved : Resolved) :
    Component → Except LayoutError Resolved
  | .curDir => .ok resolved
  | .parentDir => .ok resolved.pop
  | .normal name =>
      let candidate := (resolved.push name).path
      match disk.symlinkMetadata candidate with
      | .ok kind =>
          if kind = .symlink then
            match disk.readLink candidate with
            | .ok target => resolve (join resolved.path target)
            | .error source => .error (.resolvePath candidate source)
          else .ok (resolved.push name)
      | .error source =>
          if source = .notFound ∨ source = .notADirectory then .ok (resolved.push name)
          else .error (.resolvePath candidate source)

/-- The first argument counts the links that may still be nested. -/
def follow : Nat → PathBuf → Except LayoutError Resolved
  | 0, path => .error (.symlinkLoop path)
  | links + 1, path =>
      (components path).foldlM (followComponent disk (follow links)) (.start path)

/-- `resolve_absolute_weak`, which fails at a depth of more than forty. -/
def resolveWeak (path : PathBuf) (symlinkDepth : Nat) : Except LayoutError PathBuf :=
  (follow disk (41 - symlinkDepth) path).map Resolved.path

end Model

section Paths

/-- A component that stands for an entry of a directory. -/
structure EntryName (name : Bytes) : Prop where
  nonempty : name ≠ []
  no_slash : slash ∉ name
  not_cur : name ≠ [0x2e]
  not_parent : name ≠ [0x2e, 0x2e]

theorem component_of_entryName {name : Bytes} (h : EntryName name) :
    component name = .normal name := by
  rw [component, if_neg h.not_cur, if_neg h.not_parent]

theorem entryName_of_mem {path name : Bytes} (h : .normal name ∈ components path) :
    EntryName name := by
  obtain ⟨part, hpart, heq⟩ := List.mem_map.1 h
  obtain ⟨hmem, hne⟩ := List.mem_filter.1 hpart
  unfold component at heq
  split at heq
  next => cases heq
  next hcur =>
    split at heq
    next => cases heq
    next hparent =>
      obtain rfl := Component.normal.inj heq
      exact ⟨of_decide_eq_true hne, not_mem_of_mem_splitOn hmem, hcur, hparent⟩

variable {resolved : Resolved} (hnames : ∀ name ∈ resolved.names, EntryName name)

include hnames

theorem isAbsolute_path : isAbsolute resolved.path = resolved.rooted := by
  obtain ⟨_ | _, names⟩ := resolved
  · cases names with
    | nil => rfl
    | cons name names =>
        have hname := hnames name List.mem_cons_self
        obtain ⟨byte, bytes, rfl⟩ := List.exists_cons_of_ne_nil hname.nonempty
        have hbyte : byte ≠ slash := fun heq => hname.no_slash (heq ▸ List.mem_cons_self)
        have hhead : (Resolved.path ⟨false, (byte :: bytes) :: names⟩).head? = some byte := by
          cases names <;> rfl
        rw [isAbsolute, hhead]
        exact decide_eq_false fun heq => hbyte (Option.some.inj heq)
  · rfl

/-- The components of a path are the names that it was made of. -/
theorem components_path : components resolved.path = resolved.names.map .normal := by
  have hparts : ((List.intercalate [slash] resolved.names).splitOn slash).filter
      (fun part => decide (part ≠ [])) = resolved.names := by
    cases hlist : resolved.names with
    | nil => rfl
    | cons first rest =>
        rw [← hlist, List.splitOn_intercalate slash (fun name hname => (hnames name hname).no_slash)
          (by rw [hlist]; exact List.cons_ne_nil _ _)]
        exact List.filter_eq_self.2 fun name hname =>
          decide_eq_true (hnames name hname).nonempty
  have hcomponents : resolved.names.map component = resolved.names.map .normal :=
    List.map_congr_left fun name hname => component_of_entryName (hnames name hname)
  rw [components, ← hcomponents]
  obtain ⟨_ | _, names⟩ := resolved
  · exact congrArg (List.map component) hparts
  · have hroot : (absolute names).splitOn slash =
        [] :: (List.intercalate [slash] names).splitOn slash :=
      List.splitOn_append_cons_self_of_not_mem (List.not_mem_nil (a := slash)) _
    change (((absolute names).splitOn slash).filter _).map component = _
    rw [hroot]
    exact congrArg (List.map component) hparts

end Paths

section Walks

/-- What is no link: another node, or nothing. -/
def Ordinary (disk : Disk) (path : PathBuf) : Prop :=
  (∃ kind, disk.symlinkMetadata path = .ok kind ∧ kind ≠ .symlink) ∨
    disk.symlinkMetadata path = .error .notFound ∨
    disk.symlinkMetadata path = .error .notADirectory

def Link (disk : Disk) (path target : PathBuf) : Prop :=
  disk.symlinkMetadata path = .ok .symlink ∧ disk.readLink path = .ok target

/-- The file system fails to say what is at a path, or where a link leads. -/
def Fails (disk : Disk) (path : PathBuf) (source : IoError) : Prop :=
  disk.symlinkMetadata path = .error source ∧ source ≠ .notFound ∧ source ≠ .notADirectory ∨
    disk.symlinkMetadata path = .ok .symlink ∧ disk.readLink path = .error source

/-- A walk over components: a link leads to where a walk over its target ends. -/
inductive Walk (disk : Disk) : Resolved → List Component → Resolved → Prop
  | done (resolved : Resolved) : Walk disk resolved [] resolved
  | here {resolved final : Resolved} {rest : List Component}
      (hrest : Walk disk resolved rest final) : Walk disk resolved (.curDir :: rest) final
  | up {resolved final : Resolved} {rest : List Component}
      (hrest : Walk disk resolved.pop rest final) :
      Walk disk resolved (.parentDir :: rest) final
  | entry {resolved final : Resolved} {name : Bytes} {rest : List Component}
      (hordinary : Ordinary disk (resolved.push name).path)
      (hrest : Walk disk (resolved.push name) rest final) :
      Walk disk resolved (.normal name :: rest) final
  | link {resolved inner final : Resolved} {name : Bytes} {target : PathBuf}
      {rest : List Component} (hlink : Link disk (resolved.push name).path target)
      (hinner : Walk disk (.start (join resolved.path target))
        (components (join resolved.path target)) inner)
      (hrest : Walk disk inner rest final) : Walk disk resolved (.normal name :: rest) final

/-- `Nested disk n path target`: so many links, each met on the walk over the target of
the one before, lead from a path to a target. -/
inductive Nested (disk : Disk) : Nat → PathBuf → PathBuf → Prop
  | here (path : PathBuf) : Nested disk 0 path path
  | link {n : Nat} {path text target : PathBuf} {before after : List Component}
      {resolved : Resolved} {name : Bytes}
      (hcomponents : components path = before ++ .normal name :: after)
      (hwalk : Walk disk (.start path) before resolved)
      (hlink : Link disk (resolved.push name).path text)
      (hnested : Nested disk n (join resolved.path text) target) :
      Nested disk (n + 1) path target

variable {disk : Disk}

/-- No prefix of a canonical path is a link. -/
structure Canonical (disk : Disk) (resolved : Resolved) : Prop where
  names : ∀ name ∈ resolved.names, EntryName name
  ordinary : ∀ before, before ≠ [] → before <+: resolved.names →
    Ordinary disk (Resolved.path ⟨resolved.rooted, before⟩)

theorem canonical_start (path : PathBuf) : Canonical disk (.start path) where
  names _ hmem := absurd hmem List.not_mem_nil
  ordinary _ hne hprefix := absurd (List.prefix_nil.1 hprefix) hne

theorem Canonical.pop {resolved : Resolved} (h : Canonical disk resolved) :
    Canonical disk resolved.pop where
  names name hmem := h.names name (List.mem_of_mem_dropLast hmem)
  ordinary before hne hbefore :=
    h.ordinary before hne (hbefore.trans (List.dropLast_prefix _))

theorem Canonical.push {resolved : Resolved} {name : Bytes} (h : Canonical disk resolved)
    (hname : EntryName name) (hordinary : Ordinary disk (resolved.push name).path) :
    Canonical disk (resolved.push name) where
  names other hmem := by
    rcases List.mem_append.1 hmem with hold | hnew
    · exact h.names other hold
    · rw [List.mem_singleton.1 hnew]
      exact hname
  ordinary before hne hbefore := by
    rcases List.prefix_concat_iff.1 hbefore with rfl | hold
    · exact hordinary
    · exact h.ordinary before hne hold

/-- A walk ends at a canonical path. -/
theorem Walk.canonical {resolved final : Resolved} {rest : List Component}
    (h : Walk disk resolved rest final) (hresolved : Canonical disk resolved)
    (hrest : ∀ name, .normal name ∈ rest → EntryName name) : Canonical disk final := by
  induction h with
  | done => exact hresolved
  | here _ ih => exact ih hresolved fun name hmem => hrest name (List.mem_cons_of_mem _ hmem)
  | up _ ih => exact ih hresolved.pop fun name hmem => hrest name (List.mem_cons_of_mem _ hmem)
  | entry hordinary _ ih =>
      exact ih (hresolved.push (hrest _ List.mem_cons_self) hordinary)
        fun name hmem => hrest name (List.mem_cons_of_mem _ hmem)
  | link _ _ _ ihinner ih =>
      exact ih (ihinner (canonical_start _) fun _ => entryName_of_mem)
        fun name hmem => hrest name (List.mem_cons_of_mem _ hmem)

/-- The walk over a link that was joined to a rooted path is rooted. -/
theorem isAbsolute_join {base target : PathBuf} (h : isAbsolute base = true) :
    isAbsolute (join base target) = true := by
  unfold join
  split
  next htarget => exact htarget
  next =>
    cases base with
    | nil => cases h
    | cons byte bytes => split <;> exact h

theorem Walk.rooted {resolved final : Resolved} {rest : List Component}
    (h : Walk disk resolved rest final) (hrooted : resolved.rooted = true) :
    final.rooted = true := by
  induction h with
  | done => exact hrooted
  | here _ ih => exact ih hrooted
  | up _ ih => exact ih hrooted
  | entry _ _ ih => exact ih hrooted
  | @link resolved inner final name target rest _ _ _ ihinner ih =>
      apply ih
      apply ihinner
      apply isAbsolute_join
      rw [Resolved.path, if_pos hrooted]
      rfl

end Walks

section Refinement

variable {disk : Disk}

theorem Walk.append {resolved inner final : Resolved} {before after : List Component}
    (hbefore : Walk disk resolved before inner) (hafter : Walk disk inner after final) :
    Walk disk resolved (before ++ after) final := by
  induction hbefore with
  | done => exact hafter
  | here _ ih => exact .here (ih hafter)
  | up _ ih => exact .up (ih hafter)
  | entry hordinary _ ih => exact .entry hordinary (ih hafter)
  | link hlink hinner _ _ ih => exact .link hlink hinner (ih hafter)

/-- What a resolution with so many links to nest can come to. -/
def Outcome (disk : Disk) (links : Nat) (path : PathBuf) : Except LayoutError Resolved → Prop
  | .ok final => Walk disk (.start path) (components path) final
  | .error (.symlinkLoop target) => Nested disk links path target
  | .error (.resolvePath candidate source) => Fails disk candidate source
  | .error _ => False

/-- What one component can come to, on the walk over a path. -/
theorem followComponent_outcome {links : Nat} {path : PathBuf} {before after : List Component}
    {component : Component} {resolved : Resolved}
    (hfollow : ∀ target, Outcome disk links target (follow disk links target))
    (hcomponents : components path = before ++ component :: after)
    (hwalk : Walk disk (.start path) before resolved) :
    match followComponent disk (follow disk links) resolved component with
    | .ok next => Walk disk (.start path) (before ++ [component]) next
    | .error error => Outcome disk (links + 1) path (.error error) := by
  cases component with
  | curDir => exact hwalk.append (.here (.done _))
  | parentDir => exact hwalk.append (.up (.done _))
  | normal name =>
      simp only [followComponent]
      cases hmetadata : disk.symlinkMetadata (resolved.push name).path with
      | ok kind =>
          dsimp only
          by_cases hkind : kind = .symlink
          · subst hkind
            rw [if_pos rfl]
            cases hread : disk.readLink (resolved.push name).path with
            | error source => exact .inr ⟨hmetadata, hread⟩
            | ok text =>
                dsimp only
                have hlink : Link disk (resolved.push name).path text := ⟨hmetadata, hread⟩
                have hinner := hfollow (join resolved.path text)
                cases hresult : follow disk links (join resolved.path text) with
                | ok final =>
                    rw [hresult] at hinner
                    exact hwalk.append (.link hlink hinner (.done _))
                | error error =>
                    rw [hresult] at hinner
                    cases error with
                    | symlinkLoop target => exact .link hcomponents hwalk hlink hinner
                    | resolvePath candidate source => exact hinner
                    | _ => exact hinner
          · rw [if_neg hkind]
            exact hwalk.append (.entry (.inl ⟨kind, hmetadata, hkind⟩) (.done _))
      | error source =>
          dsimp only
          by_cases hmissing : source = .notFound ∨ source = .notADirectory
          · rw [if_pos hmissing]
            have hordinary : Ordinary disk (resolved.push name).path := by
              rcases hmissing with rfl | rfl
              · exact .inr (.inl hmetadata)
              · exact .inr (.inr hmetadata)
            exact hwalk.append (.entry hordinary (.done _))
          · rw [if_neg hmissing]
            exact .inl ⟨hmetadata, not_or.1 hmissing⟩

theorem fold_outcome {links : Nat} {path : PathBuf} {before after : List Component}
    {resolved : Resolved}
    (hfollow : ∀ target, Outcome disk links target (follow disk links target))
    (hcomponents : components path = before ++ after)
    (hwalk : Walk disk (.start path) before resolved) :
    Outcome disk (links + 1) path
      (after.foldlM (followComponent disk (follow disk links)) resolved) := by
  induction after generalizing before resolved with
  | nil =>
      rw [List.append_nil] at hcomponents
      change Walk disk (.start path) (components path) resolved
      rw [hcomponents]
      exact hwalk
  | cons component after ih =>
      rw [List.foldlM_cons]
      have hstep := followComponent_outcome hfollow hcomponents hwalk
      cases hresult : followComponent disk (follow disk links) resolved component with
      | error error =>
          rw [hresult] at hstep
          exact hstep
      | ok next =>
          rw [hresult] at hstep
          apply ih _ hstep
          rw [hcomponents, List.append_assoc, List.singleton_append]

/-- Every resolution comes to a walk, to a chain of nested links that is too long, or to
a failure of the file system. -/
theorem follow_outcome (disk : Disk) (links : Nat) :
    ∀ path, Outcome disk links path (follow disk links path) := by
  induction links with
  | zero => exact fun path => .here path
  | succ links ih => exact fun path => fold_outcome ih (List.nil_append _).symm (.done _)

theorem followComponent_ordinary {resolved : Resolved} {name : Bytes}
    (resolve : PathBuf → Except LayoutError Resolved)
    (h : Ordinary disk (resolved.push name).path) :
    followComponent disk resolve resolved (.normal name) = .ok (resolved.push name) := by
  rcases h with ⟨kind, hkind, hne⟩ | hmissing | hmissing
  · simp only [followComponent, hkind, if_neg hne]
  · simp [followComponent, hmissing]
  · simp [followComponent, hmissing]

theorem fold_canonical {resolved : Resolved} {before after : List Bytes}
    (resolve : PathBuf → Except LayoutError Resolved) (h : Canonical disk resolved)
    (hnames : resolved.names = before ++ after) :
    (after.map Component.normal).foldlM (followComponent disk resolve)
      ⟨resolved.rooted, before⟩ = .ok resolved := by
  induction after generalizing before with
  | nil =>
      rw [List.append_nil] at hnames
      rw [← hnames]
      rfl
  | cons name after ih =>
      have hsplit : resolved.names = before ++ [name] ++ after := by
        rw [hnames, List.append_assoc, List.singleton_append]
      have hordinary : Ordinary disk (Resolved.push ⟨resolved.rooted, before⟩ name).path :=
        h.ordinary (before ++ [name]) (List.append_ne_nil_of_right_ne_nil _ (List.cons_ne_nil _ _))
          (hsplit ▸ List.prefix_append _ _)
      rw [List.map_cons, List.foldlM_cons, followComponent_ordinary resolve hordinary]
      exact ih hsplit

/-- A canonical path resolves to itself. -/
theorem follow_canonical {resolved : Resolved} (h : Canonical disk resolved) (links : Nat) :
    follow disk (links + 1) resolved.path = .ok resolved := by
  rw [follow, components_path h.names, Resolved.start, isAbsolute_path h.names]
  exact fold_canonical _ h (List.nil_append _).symm

end Refinement

section Resolution

variable {disk : Disk}

/-- The names of a path, none of them `.` or `..`. -/
def Names (path : PathBuf) (names : List Bytes) : Prop :=
  components path = names.map Component.normal ∧
    path = Resolved.path ⟨isAbsolute path, names⟩

/-- What a resolution returns: a path without `.` and `..`, rooted if the given path is,
none of whose prefixes is a link, and which resolves to itself. -/
structure Resolves (disk : Disk) (path result : PathBuf) : Prop where
  rooted : isAbsolute path = true → isAbsolute result = true
  plain : ∃ names, Names result names ∧ ∀ before, before ≠ [] → before <+: names →
    disk.symlinkMetadata (Resolved.path ⟨isAbsolute result, before⟩) ≠ .ok .symlink
  again : ∀ symlinkDepth, symlinkDepth ≤ 40 → resolveWeak disk result symlinkDepth = .ok result

theorem resolves_of_canonical {path : PathBuf} {resolved : Resolved}
    (h : Canonical disk resolved)
    (hrooted : isAbsolute path = true → resolved.rooted = true) :
    Resolves disk path resolved.path where
  rooted habsolute := by
    rw [isAbsolute_path h.names]
    exact hrooted habsolute
  plain := by
    refine ⟨resolved.names, ⟨components_path h.names, ?_⟩, fun before hne hbefore hlink => ?_⟩
    · rw [isAbsolute_path h.names]
    rw [isAbsolute_path h.names] at hlink
    rcases h.ordinary before hne hbefore with ⟨kind, hkind, hother⟩ | hmissing | hmissing
    · rw [hlink] at hkind
      exact hother (Except.ok.inj hkind).symm
    · rw [hlink] at hmissing
      cases hmissing
    · rw [hlink] at hmissing
      cases hmissing
  again symlinkDepth hdepth := by
    have hlinks : 41 - symlinkDepth = (40 - symlinkDepth) + 1 := by omega
    rw [resolveWeak, hlinks, follow_canonical h]
    rfl

/-- For an absolute path this is the resolution of the project paths. -/
theorem followComponent_rooted {links : Nat} (names : List Bytes) (component : Component)
    (hfollow : ∀ path, isAbsolute path = true →
      follow disk links path = (resolveAbsoluteWeak disk links path).map (Resolved.mk true)) :
    followComponent disk (follow disk links) ⟨true, names⟩ component =
      (resolveComponent disk (resolveAbsoluteWeak disk links) names component).map
        (Resolved.mk true) := by
  cases component with
  | curDir => rfl
  | parentDir => rfl
  | normal name =>
      have hcandidate : (Resolved.push ⟨true, names⟩ name).path = absolute (names ++ [name]) := rfl
      have hbase : Resolved.path ⟨true, names⟩ = absolute names := rfl
      simp only [followComponent, resolveComponent, hcandidate, hbase]
      cases disk.symlinkMetadata (absolute (names ++ [name])) with
      | error source =>
          dsimp only
          split <;> rfl
      | ok kind =>
          dsimp only
          split
          next =>
            cases disk.readLink (absolute (names ++ [name])) with
            | error source => rfl
            | ok target => exact hfollow _ (isAbsolute_join rfl)
          next => rfl

theorem follow_absolute (links : Nat) :
    ∀ path, isAbsolute path = true →
      follow disk links path = (resolveAbsoluteWeak disk links path).map (Resolved.mk true) := by
  induction links with
  | zero => exact fun path _ => rfl
  | succ links ih =>
      intro path habsolute
      rw [follow, resolveAbsoluteWeak, Resolved.start, habsolute]
      generalize components path = rest
      generalize ([] : List Bytes) = names
      induction rest generalizing names with
      | nil => rfl
      | cons component rest ihrest =>
          rw [List.foldlM_cons, List.foldlM_cons, followComponent_rooted names component ih]
          cases resolveComponent disk (resolveAbsoluteWeak disk links) names component with
          | error error => rfl
          | ok next => exact ihrest next

theorem resolveWeak_absolute {path : PathBuf} (h : isAbsolute path = true) :
    resolveWeak disk path 0 = (resolveAbsoluteWeak disk 41 path).map absolute := by
  rw [resolveWeak, follow_absolute _ path h]
  cases resolveAbsoluteWeak disk (41 - 0) path <;> rfl

/-- Resolution ends for every path: with a path as described, or with an error that more
than forty nested links or a failure of the file system account for. -/
theorem resolveWeak_outcome (disk : Disk) (path : PathBuf) (symlinkDepth : Nat) :
    match resolveWeak disk path symlinkDepth with
    | .ok result => Resolves disk path result
    | .error (.symlinkLoop target) => Nested disk (41 - symlinkDepth) path target
    | .error (.resolvePath candidate source) => Fails disk candidate source
    | .error _ => False := by
  have houtcome := follow_outcome disk (41 - symlinkDepth) path
  rw [resolveWeak]
  cases hfollow : follow disk (41 - symlinkDepth) path with
  | error error =>
      rw [hfollow] at houtcome
      cases error <;> exact houtcome
  | ok resolved =>
      rw [hfollow] at houtcome
      have hcanonical := houtcome.canonical (canonical_start path) fun _ => entryName_of_mem
      exact resolves_of_canonical hcanonical fun hrooted => houtcome.rooted hrooted

end Resolution

/-- With no files at all a relative path resolves to itself. -/
theorem relative_result :
    resolveWeak ⟨fun _ => .error .notFound, fun _ => .error .notFound,
      fun _ => .error .notFound, fun _ => .error .notFound⟩ [0x61] 0 = .ok [0x61] ∧
      isAbsolute [0x61] = false :=
  ⟨rfl, rfl⟩

end Yams.WeakResolution
