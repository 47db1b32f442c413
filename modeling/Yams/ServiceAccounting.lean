/-
The accounting of the service loop over every interleaving: the limits, one fate
for each connection, one release for each execution, no reservation after a
request for shutdown has returned, and what holds when the loop returns.
-/
import Yams.ServicePasses
import Yams.TextReading

namespace Yams.ServiceLoop

/-! The worker of one connection. -/

/-- The worker was spawned and has not released its slot. -/
def Running (stream : Conn) (s : ServiceState) : Prop :=
  stream ∉ s.released ∧ stream ∈ executed s.loop.fates

section

variable {stream : Conn} {timeout : Duration} {s s' : ServiceState}

theorem Running.stable {a b : ServiceState} (h : Running stream a)
    (hrely : ServiceRely (.worker stream) a b) : Running stream b :=
  ⟨fun hmem => h.1 (hrely.own stream rfl hmem), hrely.executed stream h.2⟩

end

/-! A holder of the shutdown token, which owns nothing. -/

/-- What each thread has established when it ends. -/
def Established : Tid → Finish → ServiceState → Prop
  | .service, .served result, s => Ended result s.loop
  | .worker stream, _, s => stream ∈ s.released
  | _, _, _ => True

/-- The executions in progress. -/
def executing (s : ServiceState) : List Conn :=
  (executed s.loop.fates).filter fun stream => stream ∉ s.released

/-- What holds once `serve_until` has ended with a result: every accepted
connection has met its fate, and the statistics are the numbers of the fates.
Unless a worker is stuck, every reservation has been drained. -/
def Returned (s : ServiceState) : Except Exit LoopStats → Prop
  | .ok stats =>
      (s.loop.fates.map Prod.fst).Perm (List.range s.loop.accepted) ∧
        stats.accepted = s.loop.accepted ∧
        stats.rejected = (turnedAway s.loop.fates).length ∧
        stats.completed + s.loop.locals.active
          = (executed s.loop.fates).length ∧
        (stats.workersStuck = false → ∀ stream ∈ s.loop.reserved,
          stream ∈ s.released)
  | .error e =>
      (s.loop.fates.map Prod.fst).Perm (List.range s.loop.accepted) ∧
        (e ≠ .unwound → s.loop.reserved = executed s.loop.fates)

/-- The accounting in one reachable pool: the limits hold; every accepted
connection has met at most one fate, and otherwise is pending or one of the two
that may be in hand; a slot is reserved once, passes to a worker unless it is
the newest, and is released at most once and at the latest when its worker
ends; after a request has returned there are no more reservations. -/
structure Accounted
    (pool : Pool Tid ServiceOp ServiceAns ServiceState Finish) : Prop where
  active : pool.state.loop.locals.active ≤ maxActiveRequests
  executing : (executing pool.state).length ≤ maxActiveRequests
  pending : pool.state.loop.locals.pending.length ≤ maxPendingAdmissions
  fates : (pool.state.loop.fates.map Prod.fst).Nodup
  accepted : ∃ hand : List Conn, hand.length ≤ 2 ∧
    (hand ++ pool.state.loop.locals.pending.map (·.stream) ++
      pool.state.loop.fates.map Prod.fst).Perm
        (List.range pool.state.loop.accepted)
  reserved : pool.state.loop.reserved.Nodup
  spent : ∃ newest : Option Conn, pool.state.loop.reserved
    = executed pool.state.loop.fates ++ newest.toList
  released : pool.state.released.Nodup
  drained : ∀ stream ∈ pool.state.released,
    stream ∈ executed pool.state.loop.fates
  worked : ∀ stream finish, pool.procs (.worker stream) = .ret finish →
    stream ∈ pool.state.released
  closed : pool.state.returns ≠ [] → ∀ pool',
    serviceInterp.system.Steps pool pool' →
      pool'.state.loop.reserved = pool.state.loop.reserved
  returned : ∀ result, pool.procs .service = .ret (.served result) →
    Returned pool.state result

namespace ServiceLoopWitness

def statsRequest : Request where
  operation :=
    { kind := .stats, query := [], k := "5", json := false, full := false
      noGate := false, explain := false, minScore := none, maxGap := none
      project := none }
  argv := ["--stats"]
  cwd := "/p"

def body : Bytes := (Json.obj (requestWire statsRequest)).render.toBytes

/-- A service whose one client sends `statsRequest`. -/
def setup : Setup where
  scan _ := ⟨requestWire statsRequest, true⟩
  timeout := second
  idleTimeout := none

def calls (t : Tid) (choices : List Choice) : List (Turn Tid Choice) :=
  choices.map (.thread t)

def undisturbed (n : Nat) : List Choice := List.replicate n .any

/-- The service thread accepts a connection, reads its request and spawns its
worker. -/
def admission : List (Turn Tid Choice) :=
  calls .service (undisturbed 17 ++ [.flag true, .any, .any,
    .data (beBytes body.length), .data body] ++ undisturbed 9 ++ [.flag true] ++
    undisturbed 4)

/-- The drain bound passes between two calls of the service thread. -/
def overdue : List (Turn Tid Choice) :=
  calls .service (undisturbed 10) ++ [.environment (.number (30 * second))] ++
    calls .service (undisturbed 4)

def outcome (turns : List (Turn Tid Choice)) :
    Option (Pool Tid ServiceOp ServiceAns ServiceState Finish) :=
  serviceInterp.schedule 4 turns (setup.pool 0 false)

/-- The statistics that `serve_until` has returned. -/
def served (pool : Pool Tid ServiceOp ServiceAns ServiceState Finish) :
    Option LoopStats :=
  match pool.procs .service with
  | .ret (.served (.ok stats)) => some stats
  | _ => none

/-- What a run has returned, reserved and released. -/
def summary (turns : List (Turn Tid Choice)) :
    Option (Option LoopStats × List Conn × List Conn) :=
  (outcome turns).map fun pool =>
    (served pool, pool.state.loop.reserved, pool.state.released)

end ServiceLoopWitness

end Yams.ServiceLoop
