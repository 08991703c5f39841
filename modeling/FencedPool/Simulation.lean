import FencedPool.Client
import FencedPool.Scheduler
import FencedPool.Service
import FencedPool.Session.Plain
import FencedPool.Session.Traced

/-!
# Simulation — one request from placing to giving back

One consumer requests nodes from a fresh store, the scheduler allocates them, and the consumer
accepts them and gives them back.  A rival session can be made to hold the last allocated node.
The report is all that comes of it; what is told on the way is dropped.

This file defines:

* `SimulationSettings` and `SimulationReport`, with the two ways to render a report;
* `Simulation.run`.
-/

namespace FencedPool

structure SimulationSettings where
  nodes : Nat := 1
  poolLabel : String := "ubuntu-jammy"
  consumerLabel : String := "npool"
  contend : Bool := false
  deriving DecidableEq, Repr

structure AcceptedNode where
  id : String
  path : String
  fence : Nat
  interfaceIp : Option String
  deriving DecidableEq, Repr

structure SimulationReport where
  requestId : String
  requestPath : String
  state : RequestState
  allocated : List String
  accepted : List AcceptedNode := []
  error : Option String := none
  cleanupFailures : List String := []
  requestDeleted : Bool := false
  released : Nat := 0
  deriving DecidableEq, Repr

inductive SimulationError
  | pool (e : PoolError)
  | scheduler (e : SchedulerError)
  | rival (e : StoreError)
  | noChange
  deriving DecidableEq, Repr

def SimulationError.message : SimulationError → String
  | .pool e => e.message
  | .scheduler e => e.message
  | .rival e => e.message
  | .noChange => "channel closed"

namespace AcceptedNode

def ofHandle (h : NodeHandle) : AcceptedNode :=
  ⟨h.nodeId, h.path, h.lock.fence, h.metadata.interfaceIp⟩

def toJson (n : AcceptedNode) : Json :=
  .obj ([("id", .str n.id), ("path", .str n.path), ("fence", .num (.integer n.fence))]
    ++ Json.member? "interface_ip" n.interfaceIp .str)

end AcceptedNode

namespace SimulationReport

def toJson (r : SimulationReport) : Json :=
  .obj ([("request_id", .str r.requestId), ("request_path", .str r.requestPath),
      ("state", .str r.state.display), ("allocated", .arr (r.allocated.map .str)),
      ("accepted", .arr (r.accepted.map (·.toJson)))]
    ++ Json.member? "error" r.error .str
    ++ [("cleanup_failures", .arr (r.cleanupFailures.map .str)),
      ("request_deleted", .bool r.requestDeleted), ("released", .num (.integer r.released))])

def lines (r : SimulationReport) : List String :=
  ["Request: " ++ r.requestId ++ " (" ++ r.state.display ++ ")", "  Path: " ++ r.requestPath,
    "  Allocated: " ++ ", ".intercalate r.allocated]
  ++ (if r.accepted = [] then [] else ["  Accepted:"])
  ++ r.accepted.map (fun n => "    " ++ n.path ++ " (fence " ++ Text.decimal n.fence ++ ")")
  ++ (r.error.map ("  Error: " ++ ·)).toList
  ++ r.cleanupFailures.map ("  Cleanup: " ++ ·)
  ++ ["  Request deleted: " ++ (if r.requestDeleted then "true" else "false"),
    "  Released: " ++ Text.decimal r.released]

def text (r : SimulationReport) : String := "\n".intercalate r.lines

end SimulationReport

namespace Simulation

/-- A step of a simulation: it works on the store, and an error ends the simulation. -/
abbrev Step (α : Type) := StateT Store (Except SimulationError) α

/-- Ends the simulation when a step has failed. -/
def orStop {ε α : Type} (wrap : ε → SimulationError) : Except ε α → Step α
  | .ok a => pure a
  | .error e => throw (wrap e)

def onSession {α : Type} (session : Session Store) (p : Procedure α) : Step α := do
  let reply := p.run session (← get)
  set reply.state
  return reply.answer

def onScheduler {α : Type}
    (op : Store → Reply (Scheduler × Store) (Except SchedulerError α)) : Step (Scheduler × α) := do
  let reply := op (← get)
  set reply.state.2
  let a ← orStop .scheduler reply.answer
  return (reply.state.1, a)

def openSession (timeout : Duration) : Step SessionId := do
  let (id, store) := (← get).openSession {} timeout
  set store
  return id

def holdNode (session : Session Store) (path : String) : Step Unit := do
  let _ ← orStop .rival (← onSession session (.ask (.acquire path)))

def releaseAll (session : Session Store) : List NodeHandle → Step Unit
  | [] => return ()
  | h :: rest => do
      orStop .pool (← onSession session (Client.release h))
      releaseAll session rest

/-- A request is placed on a session, and watched. -/
def place (client : Client) (session : Session Store) (settings : SimulationSettings) :
    Step (NodeRequest × WatchId) := do
  let placed ← orStop .pool
    (← onSession session (client.request settings.poolLabel settings.consumerLabel))
  let changed ← orStop .pool (← onSession session (Client.watchRequest placed))
  return (placed, changed)

/-- A request that was placed, after a pass of the scheduler. -/
def decided (scheduler : Scheduler) (session : Session Store) (count : Nat) (placed : NodeRequest)
    (changed : WatchId) : Step NodeRequest := do
  let _ ← onScheduler fun store => scheduler.runOnce store count
  let (event, store) := (← get).poll changed
  set store
  -- the scheduler is expected to have decided about the request
  if event = some .pending then throw .noChange
  orStop .pool (← onSession session (Client.refresh placed))

/-- Where the nodes of a request are contended for, a rival takes the last one. -/
def holdLast (config : Config) (contend : Bool) (rival : SessionId) (request : NodeRequest) :
    Step Unit := do
  if contend then
    if let some last := request.allocatedNodes.getLast? then
      holdNode (.plain rival) (Path.join config.nodePath last)

/-- A request is accepted on a session, and its nodes are given back. -/
def consume (client : Client) (session : Session Store) (request : NodeRequest) :
    Step SimulationReport := do
  let requestPath := request.path.getD ""
  let outcome ← onSession session (client.accept request)
  releaseAll session outcome.nodes
  let present ← orStop .pool (← onSession session (Client.nodeExists requestPath))
  return {
    requestId := request.id.getD ""
    requestPath := requestPath
    state := request.state
    allocated := request.allocatedNodes
    accepted := outcome.nodes.map .ofHandle
    error := match outcome.result with
      | .ok _ => none
      | .error e => some e.message
    cleanupFailures := outcome.cleanup.failures.map (·.message)
    requestDeleted := !present
    released := outcome.nodes.length }

def steps (config : Config) (settings : SimulationSettings) : Step SimulationReport := do
  -- the pool is filled before anybody asks for a node
  let (scheduler, _) ← onScheduler fun store =>
    (Scheduler.new config).provision store settings.nodes settings.poolLabel
  let consumer ← openSession config.sessionTimeout
  let client ← orStop .pool (Client.new config)
  let session := (Session.plain consumer).traced
  let (placed, changed) ← place client session settings
  let request ← decided scheduler session settings.nodes placed changed
  let rival ← openSession config.sessionTimeout
  -- with the last node taken, the client has to give back all others
  holdLast config settings.contend rival request
  let report ← consume client session request
  -- the sessions end in the reverse order of their beginning
  modify fun store => (store.closeSession rival).closeSession consumer
  return report

def run (config : Config) (settings : SimulationSettings) :
    Except SimulationError SimulationReport :=
  (steps config settings).run' {}

end Simulation

end FencedPool
