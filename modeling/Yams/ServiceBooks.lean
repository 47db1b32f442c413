/-
The books of the service loop.  Every accepted connection is in hand, pending or
has met its fate, and each counter differs from what it counts by a lag that is
known at every point of the loop.
-/
import Yams.ServiceLoop
import Mathlib.Data.List.Perm.Basic
import Mathlib.Data.List.Nodup

namespace Yams.ServiceLoop

def Fate.isExecuted : Fate → Bool
  | executed _ => true
  | _ => false

/-- The connections that were given to a worker, in order. -/
def executed (fates : List (Conn × Fate)) : List Conn :=
  (fates.filter fun fate => fate.2.isExecuted).map Prod.fst

/-- The fates of the connections that were not executed. -/
def turnedAway (fates : List (Conn × Fate)) : List (Conn × Fate) :=
  fates.filter fun fate => !fate.2.isExecuted

theorem executed_concat (fates : List (Conn × Fate)) (stream : Conn)
    (fate : Fate) : executed (fates ++ [(stream, fate)])
      = executed fates ++ if fate.isExecuted then [stream] else [] := by
  unfold executed
  cases h : fate.isExecuted <;> simp [List.filter_append, h]

theorem turnedAway_concat (fates : List (Conn × Fate)) (stream : Conn)
    (fate : Fate) : (turnedAway (fates ++ [(stream, fate)])).length
      = (turnedAway fates).length + if fate.isExecuted then 0 else 1 := by
  unfold turnedAway
  cases h : fate.isExecuted <;> simp [List.filter_append, h]

theorem executed_subset (fates : List (Conn × Fate)) :
    (executed fates).Sublist (fates.map Prod.fst) :=
  List.filter_sublist.map Prod.fst

/-- How far the counters are behind: connections accepted and not yet counted,
fates dealt out and not yet counted (negative where the count came first),
workers spawned and not yet counted, and messages received and not yet
counted. -/
structure Lag where
  accepted : Nat
  rejected : Int
  spawned : Nat
  received : Nat

/-- Everything is counted. -/
def Lag.none : Lag := ⟨0, 0, 0, 0⟩

/-- The books of the loop while the streams `hand` are in hand and a
reservation `taken` is not yet spent on a worker. -/
structure Books (hand : List Conn) (taken : Option Conn) (lag : Lag)
    (l : Loop) : Prop where
  ledger : (hand ++ l.locals.pending.map (·.stream) ++
    l.fates.map Prod.fst).Perm (List.range l.accepted)
  reserved : l.reserved = executed l.fates ++ taken.toList
  taken : ∀ stream ∈ taken, stream ∉ executed l.fates
  accepted : l.locals.stats.accepted + lag.accepted = l.accepted
  rejected : (l.locals.stats.rejected : Int) + lag.rejected
    = (turnedAway l.fates).length
  executed : (executed l.fates).length
    = l.locals.active + l.locals.stats.completed + lag.spawned
  received : l.received = l.locals.stats.completed + lag.received
  active : l.locals.active + lag.spawned ≤ maxActiveRequests
  pending : l.locals.pending.length ≤ maxPendingAdmissions

/-- Nothing is in hand and everything is counted. -/
abbrev Settled (l : Loop) : Prop := Books [] .none .none l

section

variable {hand : List Conn} {taken : Option Conn} {lag : Lag} {l : Loop}
variable {stream : Conn}

namespace Books

theorem nodup (h : Books hand taken lag l) :
    (hand ++ l.locals.pending.map (·.stream) ++ l.fates.map Prod.fst).Nodup :=
  h.ledger.nodup_iff.mpr List.nodup_range

/-- A stream in hand has met no fate. -/
theorem not_fated (h : Books (stream :: hand) taken lag l) :
    stream ∉ l.fates.map Prod.fst := by
  intro hmem
  have hnodup := h.nodup
  rw [List.cons_append, List.cons_append, List.nodup_cons] at hnodup
  exact hnodup.1 (List.mem_append_right _ hmem)

theorem accept (h : Books hand taken lag l) :
    Books (l.accepted :: hand) taken { lag with accepted := lag.accepted + 1 }
      { l with accepted := l.accepted + 1 } := by
  refine { h with ledger := ?_, accepted := ?_ }
  · rw [List.range_succ, List.cons_append, List.cons_append]
    exact (h.ledger.cons _).trans (List.perm_append_singleton _ _).symm
  · have haccepted := h.accepted
    change l.locals.stats.accepted + (lag.accepted + 1) = l.accepted + 1
    omega

/-- The fate of a stream in hand moves it to the end of the ledger. -/
theorem fated (h : Books (stream :: hand) taken lag l) (fate : Fate) :
    (hand ++ l.locals.pending.map (·.stream) ++
      (l.fates ++ [(stream, fate)]).map Prod.fst).Perm
        (List.range l.accepted) := by
  rw [List.map_append, ← List.append_assoc]
  exact (List.perm_append_singleton _ _).trans h.ledger

theorem drop (h : Books (stream :: hand) taken lag l) (fate : Fate)
    (hfate : fate.isExecuted = false) :
    Books hand taken { lag with rejected := lag.rejected + 1 }
      { l with fates := l.fates ++ [(stream, fate)] } := by
  have hsame : ServiceLoop.executed (l.fates ++ [(stream, fate)])
      = ServiceLoop.executed l.fates := by
    rw [executed_concat, hfate]
    simp
  have hone : (turnedAway (l.fates ++ [(stream, fate)])).length
      = (turnedAway l.fates).length + 1 := by
    rw [turnedAway_concat, hfate]
    simp
  refine { h with
    ledger := h.fated fate, reserved := ?_, taken := ?_, rejected := ?_,
    executed := ?_ }
  · rw [hsame]
    exact h.reserved
  · rw [hsame]
    exact h.taken
  · rw [hone]
    have hrejected := h.rejected
    change (l.locals.stats.rejected : Int) + (lag.rejected + 1) = _
    omega
  · rw [hsame]
    exact h.executed

theorem reserve (h : Books (stream :: hand) .none lag l) :
    Books (stream :: hand) (some stream) lag
      { l with reserved := l.reserved ++ [stream] } := by
  refine { h with reserved := ?_, taken := ?_ }
  · rw [h.reserved]
    simp
  · rintro _ ⟨⟩ hmem
    exact h.not_fated ((executed_subset l.fates).subset hmem)

theorem spawn (h : Books (stream :: hand) (some stream) lag l)
    (hfree : l.locals.active + lag.spawned < maxActiveRequests)
    (request : Request) :
    Books hand .none { lag with spawned := lag.spawned + 1 }
      { l with fates := l.fates ++ [(stream, .executed request)] } := by
  have hmore : ServiceLoop.executed (l.fates ++ [(stream, .executed request)])
      = ServiceLoop.executed l.fates ++ [stream] := executed_concat _ _ _
  have hsame : (turnedAway (l.fates ++ [(stream, .executed request)])).length
      = (turnedAway l.fates).length := turnedAway_concat _ _ _
  refine { h with
    ledger := h.fated _, reserved := ?_, taken := nofun, rejected := ?_,
    executed := ?_, active := hfree }
  · rw [hmore, h.reserved]
    simp
  · rw [hsame]
    exact h.rejected
  · rw [hmore, List.length_append, h.executed]
    rfl

theorem pushBack {admission : PendingAdmission}
    (h : Books (admission.stream :: hand) taken lag l)
    (hroom : l.locals.pending.length < maxPendingAdmissions) :
    Books hand taken lag
      { l with locals := pushBack admission l.locals } := by
  refine { h with ledger := ?_, pending := ?_ }
  · refine List.Perm.trans ?_ h.ledger
    apply List.Perm.append_right
    change (hand ++ (l.locals.pending ++ [admission]).map (·.stream)).Perm _
    rw [List.map_append, ← List.append_assoc]
    exact List.perm_append_singleton _ _
  · change (l.locals.pending ++ [admission]).length ≤ _
    rw [List.length_append]
    exact hroom

/-- Changes of the variables that no count depends on. -/
theorem unbooked (h : Books hand taken lag l) (change : Locals → Locals)
    (hactive : (change l.locals).active = l.locals.active)
    (hpending : (change l.locals).pending.map (·.stream)
      = l.locals.pending.map (·.stream))
    (haccepted : (change l.locals).stats.accepted = l.locals.stats.accepted)
    (hrejected : (change l.locals).stats.rejected = l.locals.stats.rejected)
    (hcompleted : (change l.locals).stats.completed
      = l.locals.stats.completed) :
    Books hand taken lag { l with locals := change l.locals } := by
  have hlength := congrArg List.length hpending
  simp only [List.length_map] at hlength
  constructor
  · simp only [hpending]
    exact h.ledger
  · exact h.reserved
  · exact h.taken
  · simp only [haccepted]
    exact h.accepted
  · simp only [hrejected]
    exact h.rejected
  · simp only [hactive, hcompleted]
    exact h.executed
  · simp only [hcompleted]
    exact h.received
  · simp only [hactive]
    exact h.active
  · simp only [hlength]
    exact h.pending

theorem setReader (h : Books hand taken lag l) (index : Nat)
    (reader : FrameReader) :
    Books hand taken lag
      { l with locals := setReader index reader l.locals } := by
  apply h.unbooked _ rfl _ rfl rfl rfl
  change (l.locals.pending.modify index _).map _ = _
  apply List.ext_getElem?
  intro i
  simp only [List.getElem?_map, List.getElem?_modify]
  cases l.locals.pending[i]? <;> simp
  split <;> rfl

end Books

end

end Yams.ServiceLoop
