/-
The walk of a corpus with its explicit stack ends, and reports what the
recursion over the tree of answers reports.
-/
import Yams.Traversal

namespace Yams.Traversal

variable {D : Type} [Sha256 D]

section Append

@[simp] theorem present_append (a b : Found D) :
    (a ++ b).present = a.present ++ b.present := rfl

@[simp] theorem oversized_append (a b : Found D) :
    (a ++ b).oversized = a.oversized ++ b.oversized := rfl

@[simp] theorem rejected_append (a b : Found D) :
    (a ++ b).rejected = a.rejected ++ b.rejected := rfl

@[simp] theorem unknown_append (a b : Found D) :
    (a ++ b).unknown = a.unknown ++ b.unknown := rfl

theorem Found.ext {a b : Found D} (hpresent : a.present = b.present)
    (hoversized : a.oversized = b.oversized) (hrejected : a.rejected = b.rejected)
    (hunknown : a.unknown = b.unknown) : a = b := by
  cases a
  cases b
  cases hpresent
  cases hoversized
  cases hrejected
  cases hunknown
  rfl

theorem Found.append_assoc (a b c : Found D) : a ++ b ++ c = a ++ (b ++ c) := by
  apply Found.ext <;> simp

@[simp] theorem Found.append_nothing (a : Found D) : a ++ .nothing = a := by
  apply Found.ext <;> simp [Found.nothing]

@[simp] theorem Found.nothing_append (a : Found D) : .nothing ++ a = a := by
  apply Found.ext <;> simp [Found.nothing]

/-- What is left of the findings below an incomplete directory. -/
def Found.onlyUnknown (found : Found D) : Found D :=
  { found with present := [], oversized := [], rejected := [] }

/-- A rollback withdraws what was found since the checkpoint, up to the notes
about what is unknown. -/
theorem rollback_append (base found : Found D) :
    (Checkpoint.at base).rollback (base ++ found) = base ++ found.onlyUnknown := by
  apply Found.ext <;>
    simp [Checkpoint.rollback, Checkpoint.at, Found.onlyUnknown]

end Append

section Recursion

/-- Whether a directory is at its end what it was at its start. -/
def stableAt (isRoot : Bool) (start : NodeState) (closing : Binding) : Bool :=
  match closing.descriptor, closing.named with
  | .ok opened, .ok named => opened = start && (isRoot || named = start)
  | .ok opened, .error _ => opened = start && isRoot
  | .error _, _ => false

/-- What a directory contributes when it is left. -/
def settle (path : PathBuf) (stable complete : Bool) (found : Found D) : Found D :=
  let kept := if stable && complete then found else found.onlyUnknown
  if stable then kept
  else kept ++ raced path
    "directory namespace changed while it was being scanned".toList

mutual

/-- What is found in a directory and below it. -/
def Directory.found (corpus : CorpusKind) (path : PathBuf) (isRoot : Bool)
    (start : NodeState) : Directory → Found D
  | ⟨some error, _, closing⟩ =>
      settle path (stableAt isRoot start closing) false
        (unreadable path (withError "cannot open directory stream" error))
  | ⟨none, stream, closing⟩ =>
      settle path (stableAt isRoot start closing) (stream.found corpus path).2
        (stream.found corpus path).1

/-- What is found in the rest of a directory stream, and whether the stream is
read to its end. -/
def Stream.found (corpus : CorpusKind) (path : PathBuf) : Stream → Found D × Bool
  | .exhausted => (.nothing, true)
  | .failed error _ =>
      (unreadable path (withError "cannot read a directory entry" error), false)
  | .entry name answers below failIteration rest =>
      if isDotName name then rest.found corpus path
      else
        let found := (inspectEntry path name corpus answers).1
        let descended := match (inspectEntry (D := D) path name corpus answers).2 with
          | .descend path state => below.found corpus path false state
          | .done => .nothing
        if failIteration then
          (found ++ unreadable path
            "injected directory iteration failure".toList ++ descended, false)
        else
          (found ++ descended ++ (rest.found corpus path).1,
            (rest.found corpus path).2)

end

end Recursion

section Walks

variable {corpus : CorpusKind}

/-- A walk reaches another one within some turns. -/
def Reaches (corpus : CorpusKind) (bound : Nat) (start stop : Walk D) : Prop :=
  ∃ turns, turns ≤ bound ∧ walk corpus turns start = stop

theorem Reaches.refl (bound : Nat) (start : Walk D) :
    Reaches corpus bound start start :=
  ⟨0, Nat.zero_le bound, rfl⟩

theorem Reaches.trans {first second : Nat} {start middle stop : Walk D}
    (h : Reaches corpus first start middle)
    (h' : Reaches corpus second middle stop) :
    Reaches corpus (first + second) start stop := by
  obtain ⟨n, hn, rfl⟩ := h
  obtain ⟨m, hm, rfl⟩ := h'
  refine ⟨m + n, by omega, ?_⟩
  unfold walk
  rw [Function.iterate_add_apply]

theorem Reaches.mono {bound larger : Nat} {start stop : Walk D}
    (h : Reaches corpus bound start stop) (hle : bound ≤ larger) :
    Reaches corpus larger start stop := by
  obtain ⟨n, hn, heq⟩ := h
  exact ⟨n, hn.trans hle, heq⟩

theorem reaches_step (corpus : CorpusKind) (start : Walk D) :
    Reaches corpus 1 start (start.step corpus) :=
  ⟨1, Nat.le_refl 1, rfl⟩

/-- Two walks that take the same step reach the same walks after it. -/
theorem Reaches.of_step_eq {bound : Nat} {start other stop : Walk D}
    (hstep : start.step corpus = other.step corpus) (hne : stop.stack.length <
      other.stack.length) (h : Reaches corpus bound other stop) :
    Reaches corpus bound start stop := by
  obtain ⟨n, hn, heq⟩ := h
  cases n with
  | zero =>
      change other = stop at heq
      rw [heq] at hne
      exact absurd hne (Nat.lt_irrefl _)
  | succ n =>
      refine ⟨n + 1, hn, ?_⟩
      unfold walk at heq ⊢
      rw [Function.iterate_succ_apply] at heq ⊢
      rw [hstep]
      exact heq

/-- The parents are where they were, up to what they know of the subtree. -/
def SameParents (parents after : List Frame) : Prop :=
  ∃ completed, after = propagate completed parents

theorem propagate_length (completed : Bool) (parents : List Frame) :
    (propagate completed parents).length = parents.length := by
  cases parents with
  | nil => rfl
  | cons parent rest => cases completed <;> rfl

/-- A directory is being read: what its frame says, and what was found in it
since its checkpoint. -/
structure Reading (frame : Frame) (path : PathBuf) (isRoot : Bool)
    (start : NodeState) (closing : Binding) (base : Report D) : Prop where
  path_eq : frame.path = path
  start_eq : frame.start = start
  closing_eq : frame.closing = closing
  checkpoint_eq : frame.checkpoint = .at base
  name_eq : frame.nameInParent.isSome = !isRoot

variable {frame : Frame} {path : PathBuf} {isRoot : Bool} {start : NodeState}
  {closing : Binding} {base : Report D} {parents : List Frame}

theorem Reading.stable (h : Reading frame path isRoot start closing base)
    (hroot : isRoot = parents.isEmpty) :
    (if parents.isEmpty then descriptorMatches frame
      else directoryBindingMatches frame) = stableAt isRoot start closing := by
  obtain ⟨_, rfl, rfl, _, hname⟩ := h
  subst hroot
  unfold stableAt descriptorMatches directoryBindingMatches
  cases parents with
  | nil =>
      cases frame.closing.descriptor with
      | error error => rfl
      | ok opened => cases frame.closing.named <;> simp
  | cons parent rest =>
      obtain ⟨name, hname⟩ := Option.isSome_iff_exists.1
        (show frame.nameInParent.isSome = true by rw [hname]; rfl)
      rw [hname]
      cases frame.closing.descriptor with
      | error error => rfl
      | ok opened => cases frame.closing.named <;> simp

/-- Leaving a directory settles what was found in it. -/
theorem close_eq (h : Reading frame path isRoot start closing base)
    (hroot : isRoot = parents.isEmpty) (found : Found D)
    (completed : List NamespaceDirectory) :
    ∃ after last, SameParents parents after ∧
      close frame parents (base ++ found) completed =
        ⟨after, base ++ settle path (stableAt isRoot start closing)
          frame.ownComplete found, last⟩ := by
  unfold close
  rw [h.stable hroot, h.checkpoint_eq, rollback_append, h.path_eq]
  dsimp only
  apply Exists.intro
  apply Exists.intro
  apply And.intro ⟨_, rfl⟩
  apply congrArg (fun report : Report D => Walk.mk _ report _)
  unfold settle
  cases stableAt isRoot start closing <;> cases frame.ownComplete <;>
    simp [Found.append_assoc]

/-- The frame when an entry of its stream has been handled. -/
def Frame.passed (frame : Frame) (failIteration : Bool) (rest : Stream) : Frame :=
  if failIteration then
    { frame with
      stream := none, processedEntries := frame.processedEntries + 1
      ownComplete := false, subtreeComplete := false }
  else
    { frame with
      stream := some rest, processedEntries := frame.processedEntries + 1 }

/-- The note about a stream that the test hook fails. -/
def interruption (path : PathBuf) (failIteration : Bool) : Found D :=
  if failIteration then
    unreadable path "injected directory iteration failure".toList
  else .nothing

theorem Reading.passed (h : Reading frame path isRoot start closing base)
    (failIteration : Bool) (rest : Stream) :
    Reading (frame.passed failIteration rest) path isRoot start closing base := by
  obtain ⟨hpath, hstart, hclosing, hcheckpoint, hname⟩ := h
  cases failIteration with
  | false => exact ⟨hpath, hstart, hclosing, hcheckpoint, hname⟩
  | true => exact ⟨hpath, hstart, hclosing, hcheckpoint, hname⟩

theorem Reading.incomplete (h : Reading frame path isRoot start closing base)
    (complete : Bool) :
    Reading { frame with subtreeComplete := complete } path isRoot start closing
      base :=
  ⟨h.path_eq, h.start_eq, h.closing_eq, h.checkpoint_eq, h.name_eq⟩

variable {name : Bytes} {answers : Answers} {below : Directory}
  {failIteration : Bool} {rest : Stream} {report : Report D}
  {completed : List NamespaceDirectory}

theorem nextDirectoryEntry_entry
    (hstream : frame.stream = some (.entry name answers below failIteration rest))
    (hdot : isDotName name = false) :
    nextDirectoryEntry frame = (.entry name answers below failIteration,
      { frame with stream := some rest }) := by
  have hnext : (Stream.entry name answers below failIteration rest).next =
      (.entry name answers below failIteration, some rest) := by
    rw [Stream.next, hdot]
    rfl
  unfold nextDirectoryEntry
  simp only [hstream, hnext]

/-- The step at an entry that is not descended into. -/
theorem step_done
    (hstream : frame.stream = some (.entry name answers below failIteration rest))
    (hdot : isDotName name = false)
    (haction : (inspectEntry (D := D) frame.path name corpus answers).2 = .done) :
    Walk.step corpus ⟨frame :: parents, report, completed⟩ =
      ⟨frame.passed failIteration rest :: parents,
        report ++ (inspectEntry frame.path name corpus answers).1 ++
          interruption frame.path failIteration, completed⟩ := by
  rw [Walk.step]
  simp only [nextDirectoryEntry_entry hstream hdot, haction]
  cases failIteration <;> simp [Frame.passed, interruption]

/-- The step at an entry that is descended into. -/
theorem step_descend {child : PathBuf} {state : NodeState}
    (hstream : frame.stream = some (.entry name answers below failIteration rest))
    (hdot : isDotName name = false)
    (haction : (inspectEntry (D := D) frame.path name corpus answers).2 =
      .descend child state)
    (hreport : base = report ++ (inspectEntry frame.path name corpus answers).1 ++
      interruption frame.path failIteration) :
    Walk.step corpus ⟨frame :: parents, report, completed⟩ =
      ⟨(makeFrame below child (some name) state (.at base) base).1 ::
          frame.passed failIteration rest :: parents,
        (makeFrame below child (some name) state (.at base) base).2,
        completed⟩ := by
  subst hreport
  rw [Walk.step]
  simp only [nextDirectoryEntry_entry hstream hdot, haction]
  cases failIteration <;> simp [Frame.passed, interruption]

/-- `.` and `..` are passed over. -/
theorem step_dot
    (hstream : frame.stream = some (.entry name answers below failIteration rest))
    (hdot : isDotName name = true) :
    Walk.step corpus ⟨frame :: parents, report, completed⟩ =
      Walk.step corpus ⟨{ frame with stream := some rest } :: parents, report,
        completed⟩ := by
  have hnext : (Stream.entry name answers below failIteration rest).next =
      rest.next := by
    rw [Stream.next, hdot]
    rfl
  have hentry : nextDirectoryEntry frame =
      nextDirectoryEntry { frame with stream := some rest } := by
    unfold nextDirectoryEntry
    simp only [hstream, hnext]
  rw [Walk.step, Walk.step]
  simp only [hentry]

/-- A frame with no stream left is left at the next step. -/
theorem step_exhausted (corpus : CorpusKind)
    (hnext : nextDirectoryEntry frame = (.exhausted, { frame with stream := none }))
    (h : Reading frame path isRoot start closing base)
    (hroot : isRoot = parents.isEmpty) (found : Found D)
    (completed : List NamespaceDirectory) :
    ∃ after last, SameParents parents after ∧
      Reaches corpus 1 ⟨frame :: parents, base ++ found, completed⟩
        ⟨after, base ++ settle path (stableAt isRoot start closing)
          frame.ownComplete found, last⟩ := by
  have hread : Reading { frame with stream := none } path isRoot start closing
      base := ⟨h.path_eq, h.start_eq, h.closing_eq, h.checkpoint_eq, h.name_eq⟩
  obtain ⟨after, last, hafter, heq⟩ := close_eq hread hroot found completed
  have hstep : Walk.step corpus ⟨frame :: parents, base ++ found, completed⟩ =
      close { frame with stream := none } parents (base ++ found) completed := by
    rw [Walk.step]
    simp only [hnext]
  apply Exists.intro after
  apply Exists.intro last
  apply And.intro hafter
  rw [← heq, ← hstep]
  exact reaches_step corpus _

theorem Stream.turns_pos : ∀ stream : Stream, 0 < stream.turns
  | .exhausted => Nat.one_pos
  | .failed _ rest => Nat.succ_pos rest.turns
  | .entry _ _ below _ rest => Nat.succ_pos (below.turns + rest.turns)

variable (D) in
/-- The rest of a directory stream is read and the directory left, the frames
below it on the stack being left alone. -/
def ReadsOut (corpus : CorpusKind) (stream : Stream) : Prop :=
  ∀ (frame : Frame) (path : PathBuf) (isRoot : Bool) (start : NodeState)
    (closing : Binding) (base found : Report D) (parents : List Frame)
    (completed : List NamespaceDirectory),
    Reading frame path isRoot start closing base → isRoot = parents.isEmpty →
    frame.stream = some stream → frame.ownComplete = true →
    ∃ after last, SameParents parents after ∧
      Reaches corpus stream.turns ⟨frame :: parents, base ++ found, completed⟩
        ⟨after, base ++ settle path (stableAt isRoot start closing)
          (stream.found (D := D) corpus path).2
          (found ++ (stream.found corpus path).1), last⟩

variable (D) in
/-- A directory is entered, walked and left. -/
def Returns (corpus : CorpusKind) (directory : Directory) : Prop :=
  ∀ (path : PathBuf) (isRoot : Bool) (nameInParent : Option Bytes)
    (start : NodeState) (base : Report D) (parents : List Frame)
    (completed : List NamespaceDirectory),
    nameInParent.isSome = !isRoot → isRoot = parents.isEmpty →
    ∃ after last, SameParents parents after ∧
      Reaches corpus directory.turns
        ⟨(makeFrame directory path nameInParent start (.at base) base).1 :: parents,
          (makeFrame directory path nameInParent start (.at base) base).2,
          completed⟩
        ⟨after, base ++ directory.found corpus path isRoot start, last⟩

theorem readsOut_exhausted : ReadsOut D corpus .exhausted := by
  intro frame path isRoot start closing base found parents completed h hroot
    hstream hown
  have hnext : nextDirectoryEntry frame =
      (.exhausted, { frame with stream := none }) := by
    unfold nextDirectoryEntry
    simp only [hstream]
    rfl
  obtain ⟨after, last, hafter, hreach⟩ :=
    step_exhausted corpus hnext h hroot found completed
  rw [hown] at hreach
  rw [Stream.found, Found.append_nothing]
  exact ⟨after, last, hafter, hreach⟩

theorem readsOut_failed (error : Errno) (rest : Stream) :
    ReadsOut D corpus (.failed error rest) := by
  intro frame path isRoot start closing base found parents completed h hroot
    hstream hown
  let note : Found D :=
    unreadable path (withError "cannot read a directory entry" error)
  let broken : Frame := { frame with
    stream := none, ownComplete := false, subtreeComplete := false }
  have hread : Reading broken path isRoot start closing base :=
    ⟨h.path_eq, h.start_eq, h.closing_eq, h.checkpoint_eq, h.name_eq⟩
  have hstep : Walk.step corpus ⟨frame :: parents, base ++ found, completed⟩ =
      ⟨broken :: parents, base ++ (found ++ note), completed⟩ := by
    rw [Walk.step]
    have hnext : nextDirectoryEntry frame = (.failed error, broken) := by
      unfold nextDirectoryEntry
      simp only [hstream]
      rfl
    simp only [hnext]
    rw [← Found.append_assoc]
    have hpath : broken.path = path := h.path_eq
    rw [hpath]
  obtain ⟨after, last, hafter, hreach⟩ := @step_exhausted D _ broken _ _ _ _ _
    parents corpus rfl hread hroot (found ++ note) completed
  apply Exists.intro after
  apply Exists.intro last
  apply And.intro hafter
  have hfirst := reaches_step corpus
    (⟨frame :: parents, base ++ found, completed⟩ : Walk D)
  rw [hstep] at hfirst
  exact (hfirst.trans hreach).mono (Nat.succ_le_succ rest.turns_pos)

/-- After an entry the walk goes on with the rest of the stream, unless the
test hook fails it. -/
theorem reaches_passed (hrest : ReadsOut D corpus rest)
    (h : Reading frame path isRoot start closing base)
    (hroot : isRoot = parents.isEmpty) (hown : frame.ownComplete = true)
    (failIteration complete : Bool) (found : Found D)
    (completed : List NamespaceDirectory) :
    ∃ after last, SameParents parents after ∧
      Reaches corpus rest.turns
        ⟨{ frame.passed failIteration rest with
            subtreeComplete := complete } :: parents, base ++ found, completed⟩
        ⟨after, base ++ settle path (stableAt isRoot start closing)
          (!failIteration && (rest.found (D := D) corpus path).2)
          (found ++ if failIteration then .nothing
            else (rest.found corpus path).1), last⟩ := by
  have hread := (h.passed failIteration rest).incomplete complete
  cases failIteration with
  | false =>
      exact hrest _ path isRoot start closing base found parents completed hread
        hroot rfl hown
  | true =>
      obtain ⟨after, last, hafter, hreach⟩ := @step_exhausted D _
        { frame.passed true rest with subtreeComplete := complete } _ _ _ _
        _ parents corpus rfl hread hroot found completed
      apply Exists.intro after
      apply Exists.intro last
      apply And.intro hafter
      rw [if_pos rfl, Found.append_nothing]
      exact hreach.mono rest.turns_pos

theorem readsOut_dot (hrest : ReadsOut D corpus rest)
    (hdot : isDotName name = true) :
    ReadsOut D corpus (.entry name answers below failIteration rest) := by
  intro frame path isRoot start closing base found parents completed h hroot
    hstream hown
  have hread : Reading { frame with stream := some rest } path isRoot start closing
      base := ⟨h.path_eq, h.start_eq, h.closing_eq, h.checkpoint_eq, h.name_eq⟩
  obtain ⟨after, last, hafter, hreach⟩ := hrest _ path isRoot start closing base
    found parents completed hread hroot rfl hown
  rw [Stream.found, if_pos hdot]
  apply Exists.intro after
  apply Exists.intro last
  apply And.intro hafter
  have hlength : after.length < parents.length + 1 := by
    obtain ⟨_, rfl⟩ := hafter
    rw [propagate_length]
    exact Nat.lt_succ_self _
  apply Reaches.of_step_eq (step_dot hstream hdot) hlength
  apply hreach.mono
  change rest.turns ≤ below.turns + rest.turns + 1
  omega

/-- An entry that is descended into contributes what is found below it. -/
def descended (corpus : CorpusKind) (below : Directory) : EntryAction → Found D
  | .descend path state => below.found corpus path false state
  | .done => .nothing

theorem found_entry (path : PathBuf) (hdot : isDotName name = false) :
    (Stream.entry name answers below failIteration rest).found (D := D) corpus
        path =
      ((inspectEntry path name corpus answers).1 ++
          interruption path failIteration ++
          descended corpus below
            (inspectEntry (D := D) path name corpus answers).2 ++
          (if failIteration then .nothing else (rest.found corpus path).1),
        !failIteration && (rest.found (D := D) corpus path).2) := by
  rw [Stream.found, if_neg (by rw [hdot]; exact Bool.false_ne_true)]
  unfold interruption descended
  cases failIteration <;>
    cases (inspectEntry (D := D) path name corpus answers).2 <;> simp

/-- An entry is handled, with everything below it. -/
theorem reaches_entry (hbelow : Returns D corpus below)
    (hstream : frame.stream = some (.entry name answers below failIteration rest))
    (hdot : isDotName name = false) (parents : List Frame) (report : Report D)
    (completed : List NamespaceDirectory) :
    ∃ complete last, Reaches corpus (below.turns + 1)
      ⟨frame :: parents, report, completed⟩
      ⟨{ frame.passed failIteration rest with
          subtreeComplete := complete } :: parents,
        report ++ (inspectEntry frame.path name corpus answers).1 ++
          interruption frame.path failIteration ++
          descended corpus below
            (inspectEntry (D := D) frame.path name corpus answers).2, last⟩ := by
  have hfirst := reaches_step corpus
    (⟨frame :: parents, report, completed⟩ : Walk D)
  cases haction : (inspectEntry (D := D) frame.path name corpus answers).2 with
  | done =>
      rw [step_done hstream hdot haction] at hfirst
      rw [descended, Found.append_nothing]
      exact ⟨_, completed, hfirst.mono (Nat.le_add_left 1 below.turns)⟩
  | descend child state =>
      rw [step_descend hstream hdot haction rfl] at hfirst
      obtain ⟨after, last, hafter, hreach⟩ := hbelow child false (some name) state
        (report ++ (inspectEntry frame.path name corpus answers).1 ++
          interruption frame.path failIteration)
        (frame.passed failIteration rest :: parents) completed rfl rfl
      obtain ⟨inside, rfl⟩ := hafter
      have hwalk := (hfirst.trans hreach).mono (Nat.le_of_eq (Nat.add_comm 1 _))
      cases inside with
      | true => exact ⟨_, last, hwalk⟩
      | false => exact ⟨_, last, hwalk⟩

theorem readsOut_entry (hbelow : Returns D corpus below)
    (hrest : ReadsOut D corpus rest) (hdot : isDotName name = false) :
    ReadsOut D corpus (.entry name answers below failIteration rest) := by
  intro frame path isRoot start closing base found parents completed h hroot
    hstream hown
  obtain rfl := h.path_eq
  obtain ⟨complete, passed, hentry⟩ := reaches_entry hbelow hstream hdot parents
    (base ++ found) completed
  obtain ⟨after, last, hafter, hreach⟩ := reaches_passed hrest h hroot hown
    failIteration complete
    (found ++ (inspectEntry frame.path name corpus answers).1 ++
      interruption frame.path failIteration ++
      descended corpus below
        (inspectEntry (D := D) frame.path name corpus answers).2) passed
  apply Exists.intro after
  apply Exists.intro last
  apply And.intro hafter
  rw [found_entry frame.path hdot]
  simp only [Found.append_assoc] at hentry hreach ⊢
  apply (hentry.trans hreach).mono
  change below.turns + 1 + rest.turns ≤ below.turns + rest.turns + 1
  omega

mutual

/-- Every directory is walked within its turns, by recursion on the tree. -/
theorem returns (corpus : CorpusKind) :
    ∀ directory : Directory, Returns D corpus directory
  | ⟨some error, stream, closing⟩ => by
      intro path isRoot nameInParent start base parents completed hname hroot
      let frame := (makeFrame ⟨some error, stream, closing⟩ path nameInParent start
        (.at base) base).1
      have hread : Reading frame path isRoot start closing base :=
        ⟨rfl, rfl, rfl, rfl, hname⟩
      obtain ⟨after, last, hafter, hreach⟩ := @step_exhausted _ _ frame _ _ _ _ _ _
        corpus rfl hread hroot
        (unreadable path (withError "cannot open directory stream" error)) completed
      exact ⟨after, last, hafter, hreach.mono stream.turns_pos⟩
  | ⟨none, stream, closing⟩ => by
      intro path isRoot nameInParent start base parents completed hname hroot
      let frame := (makeFrame ⟨none, stream, closing⟩ path nameInParent start
        (.at base) base).1
      have hread : Reading frame path isRoot start closing base :=
        ⟨rfl, rfl, rfl, rfl, hname⟩
      have hout := readsOut corpus stream frame path isRoot start closing base
        .nothing parents completed hread hroot rfl rfl
      rw [Found.append_nothing, Found.nothing_append] at hout
      exact hout

theorem readsOut (corpus : CorpusKind) :
    ∀ stream : Stream, ReadsOut D corpus stream
  | .exhausted => readsOut_exhausted
  | .failed error rest => readsOut_failed error rest
  | .entry name _ below _ rest => by
      have hbelow := returns corpus below
      have hrest := readsOut corpus rest
      cases hdot : isDotName name with
      | true => exact readsOut_dot hrest hdot
      | false => exact readsOut_entry hbelow hrest hdot

end

end Walks

theorem walk_of_empty (corpus : CorpusKind) {walk : Walk D} (h : walk.stack = [])
    (turns : Nat) : Traversal.walk corpus turns walk = walk := by
  have hstep : walk.step corpus = walk := by
    unfold Walk.step
    rw [h]
  exact Function.iterate_fixed hstep turns

/-- The turns of the root suffice: the stack is empty then, and the report is
what the recursion finds. -/
theorem walkAll_eq (corpus : Corpus) (state : NodeState) (root : Directory) :
    (walkAll (D := D) corpus state root).stack = [] ∧
      (walkAll corpus state root).report =
        root.found (D := D) corpus.kind corpus.path true state := by
  obtain ⟨after, last, ⟨inside, rfl⟩, turns, hturns, hwalk⟩ :=
    returns (D := D) corpus.kind root corpus.path true none state .nothing [] [] rfl
      rfl
  have hrest : root.turns = (root.turns - turns) + turns := by omega
  have hall : walkAll corpus state root = (⟨[], root.found corpus.kind corpus.path
      true state, last⟩ : Walk D) := by
    have hstop := @walk_of_empty D _ corpus.kind ⟨[],
      root.found corpus.kind corpus.path true state, last⟩ rfl
      (root.turns - turns)
    rw [Found.nothing_append] at hwalk
    rw [walkAll, walk, hrest, Function.iterate_add_apply]
    change walk corpus.kind turns (startWalk corpus state root) = _ at hwalk
    unfold walk at hwalk hstop
    rw [hwalk]
    exact hstop
  rw [hall]
  exact ⟨rfl, rfl⟩

end Yams.Traversal
