/-
The functions of the service loop keep the books, one specification for each of
them, up to the whole of `serve_until`.
-/
import Yams.ServiceOutline

namespace Yams.ServiceLoop

section

variable {l : Loop} {α : Type}
variable {hand : List Conn} {taken : Option Conn} {lag : Lag}
variable {stream : Conn} {E : Exit → Loop → Prop}

variable {scan : Text → Json.Scan}

/-- Where the loop may end: nothing is pending, and unless a worker is stuck
none is active. -/
def Drained (l : Loop) : Prop :=
  Settled l ∧ l.locals.pending = [] ∧
    (l.locals.stats.workersStuck = false → l.locals.active = 0)

/-- What `serve_until` returns, where it returns. -/
def Served (stats : LoopStats) (l : Loop) : Prop :=
  Drained l ∧ stats = l.locals.stats

/-- What `serve_until` leaves behind, however it ends. -/
def Ended : Except Exit LoopStats → Loop → Prop
  | .ok stats, l => Served stats l
  | .error e, l => Abandoned e l ∧ l.locals.pending = []

end

end Yams.ServiceLoop
