import FencedPool.Client.Error
import FencedPool.Client.Event
import FencedPool.Node.Codec
import FencedPool.Procedure
import FencedPool.Request.Codec

/-!
# Client — requesting, accepting and giving back nodes

A node goes through four steps.  The client places a request, which goes away with its session.  The
scheduler writes the nodes it allocates into the request, and the client notices by a watch or by
reading it again.  The client accepts the nodes: it locks all of them or none, and the request is
deleted either way.  When the work is done, it gives each node back.

This file defines `Client`, its procedures, and `AcceptOutcome`.
-/

namespace FencedPool

/-- What became of accepting a request: all its nodes, or an error, and next to it what could not be
tidied up.  After an error the locks that are still held are those that it says could not be
released. -/
structure AcceptOutcome where
  result : Except PoolError (List NodeHandle)
  cleanup : CleanupReport := {}

namespace AcceptOutcome

def isAccepted (o : AcceptOutcome) : Bool := o.result.toBool

def nodes (o : AcceptOutcome) : List NodeHandle :=
  match o.result with
  | .ok nodes => nodes
  | .error _ => []

end AcceptOutcome

structure Client where
  config : Config
  usable : config.fault? = none

namespace Client

open Procedure

def new (config : Config) : Except PoolError Client :=
  match h : config.fault? with
  | none => .ok ⟨config, h⟩
  | some fault => .error (.config (.invalid fault))

/-! ## Entries -/

/-- Deletes an entry and reports when that fails; an entry that is already absent is no failure. -/
def deleteNode (path : String) : Procedure CleanupReport := do
  match ← ask (.delete path) with
  | .ok () =>
      note (.entryDeleted path)
      return {}
  | .error (.noNode _) =>
      note (.entryAbsent path)
      return {}
  | .error e =>
      note (.entryNotDeleted path e)
      return ⟨[.delete path e]⟩

def objectAt (path : String) : Procedure (Except PoolError (List (String × Json))) := do
  match ← ask (.read path) with
  | .error e => return .error (.ofStore e)
  | .ok data => return (decodeObject path data).mapError .malformedRecord

def nodeExists (path : String) : Procedure (Except PoolError Bool) := do
  return (← ask (.isPresent path)).mapError .ofStore

def metadataAt (path : String) : Procedure (Except PoolError NodeMetadata) := do
  match ← ask (.read path) with
  | .error e => return .error (.ofStore e)
  | .ok data => return (NodeMetadata.decode path data).mapError .malformedRecord

/-! ## Requesting -/

/-- Places a request for a node.  A path without an identity is of no use, so the entry there is
deleted; a failure to do so is told and does not replace the error. -/
def request (c : Client) (poolLabel consumerLabel : String) :
    Procedure (Except PoolError NodeRequest) := do
  let request := NodeRequest.new poolLabel consumerLabel
  let stem := c.config.requestStem
  note (.creatingRequest stem poolLabel consumerLabel)
  match ← ask (.create stem request.encode) with
  | .error e => return .error (.ofStore e)
  | .ok path =>
      match Path.identity? path with
      | some id =>
          note (.requestCreated path id)
          return .ok (request.placed path id)
      | none =>
          -- the entry exists, but nothing can refer to it as a request
          note (.unsequencedPath path)
          let cleanup ← deleteNode path
          if !cleanup.isClean then note (.unsequencedLeftBehind path cleanup)
          return .error (.invalidPath ⟨path⟩)

/-- Reads a request again.  Path and identity are those of its place, whatever the record says. -/
def refresh (r : NodeRequest) : Procedure (Except PoolError NodeRequest) := do
  match r.path with
  | none => return .error .notPlaced
  | some path =>
      match Path.identity? path with
      | none => return .error (.invalidPath ⟨path⟩)
      | some id =>
          match ← ask (.read path) with
          | .error e => return .error (.ofStore e)
          | .ok data =>
              match NodeRequest.decode path data with
              | .error e => return .error (.malformedRecord e)
              | .ok fresh => return .ok (fresh.placed path id)

def watchRequest (r : NodeRequest) : Procedure (Except PoolError WatchId) := do
  match r.path with
  | none => return .error .notPlaced
  | some path => return (← ask (.watch path)).mapError .ofStore

/-! ## Accepting -/

/-- Where an allocated node is stored.  An absolute entry is a path.  Any other is the id of a node,
perhaps written with the node root in front. -/
def resolve (c : Client) (entry : String) : String :=
  if ['/'].isPrefixOf entry.toList then entry
  else
    -- the node root alone, without the namespace above it
    let rooted := c.config.nodeRoot.toList ++ ['/']
    let id := (rooted.isPrefixOf? entry.toList).getD entry.toList
    Path.join c.config.nodePath (String.ofList id)

/-- Releases locks in turn, each of them even when an earlier one fails. -/
def rollBack : List LockToken → Procedure CleanupReport
  | [] => return {}
  | token :: rest => do
      match ← ask (.release token) with
      | .ok () => rollBack rest
      | .error e =>
          -- the other locks are still worth releasing
          note (.lockNotReleased token.path e)
          let report ← rollBack rest
          return ⟨.release token.path e :: report.failures⟩

/-- Locks and reads nodes in turn, after those that are already held.  At the first failure all
locks are released, also that of a node which could not be read. -/
def lockAll (c : Client) (id : String) (held : List NodeHandle) :
    List String → Procedure AcceptOutcome
  | [] => return { result := .ok held }
  | entry :: rest => do
      let path := c.resolve entry
      note (.acceptingNode path id)
      match ← ask (.acquire path) with
      | .error e =>
          note (.nodeNotLocked path e)
          -- the lock of this node was refused, so only the earlier ones are held
          let report ← rollBack (held.map (·.lock))
          return { result := .error (.ofStore e), cleanup := report }
      | .ok token =>
          match ← metadataAt path with
          | .error e =>
              note (.nodeNotRead path e)
              -- the node is locked but of no use, so its lock goes back as well
              let report ← rollBack (held.map (·.lock) ++ [token])
              return { result := .error e, cleanup := report }
          | .ok metadata =>
              note (.nodeRead path metadata)
              c.lockAll id (held ++ [⟨token, metadata⟩]) rest

/-- Locks every node of a request, or none of them.  The request is deleted either way, also when it
has no nodes; only one that was never placed is left alone. -/
def accept (c : Client) (r : NodeRequest) : Procedure AcceptOutcome := do
  match r.path with
  | none => return { result := .error .notPlaced }
  | some path =>
      let id := r.id.getD ""
      if r.allocatedNodes = [] then
        note (.nothingAllocated id r.state)
        return { result := .error (.notAllocated id), cleanup := ← deleteNode path }
      else
        let outcome ← c.lockAll id [] r.allocatedNodes
        -- whatever became of the locks, the request has been consumed
        let deletion ← deleteNode path
        match outcome.result with
        | .ok nodes => note (.nodesAccepted id nodes.length)
        | .error e => note (.acceptFailed id e)
        return { outcome with cleanup := outcome.cleanup.merge deletion }

def release (h : NodeHandle) : Procedure (Except PoolError Unit) := do
  match ← ask (.release h.lock) with
  | .error e => return .error (.ofStore e)
  | .ok () =>
      note (.nodeReleased h.path)
      return .ok ()

end Client

end FencedPool
