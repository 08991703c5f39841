import FencedPool.Client.Error
import FencedPool.Journal
import FencedPool.Request

/-!
# Event — what a client tells

This file defines the events of requesting, accepting, releasing and tidying up.
-/

namespace FencedPool

namespace Event

/-! ## Requesting -/

def creatingRequest (stem poolLabel consumerLabel : String) : Event :=
  ⟨.info, "creating request",
    [("prefix", stem), ("pool_label", poolLabel), ("consumer_label", consumerLabel)]⟩

/-- The store has given a path that carries no identity. -/
def unsequencedPath (path : String) : Event :=
  ⟨.error, "store assigned a path with no sequence", [("path", path)]⟩

def unsequencedLeftBehind (path : String) (report : CleanupReport) : Event :=
  ⟨.warn, "unsequenced request left behind until session ends",
    [("path", path), ("failures", Text.decimal report.failures.length)]⟩

def requestCreated (path id : String) : Event :=
  ⟨.info, "request created", [("path", path), ("id", id)]⟩

/-! ## Accepting -/

def nothingAllocated (id : String) (state : RequestState) : Event :=
  ⟨.warn, "no nodes allocated", [("request", id), ("state", state.display)]⟩

def acceptingNode (path id : String) : Event :=
  ⟨.info, "accepting node", [("node", path), ("request", id)]⟩

def nodeNotLocked (path : String) (e : StoreError) : Event :=
  ⟨.warn, "failed to lock node", [("node", path), ("error", e.message)]⟩

def nodeRead (path : String) (metadata : NodeMetadata) : Event :=
  ⟨.debug, "node data", [("node", path), ("data", .metadata metadata)]⟩

def nodeNotRead (path : String) (e : PoolError) : Event :=
  ⟨.warn, "failed to read locked node", [("node", path), ("error", e.message)]⟩

def nodesAccepted (id : String) (count : Nat) : Event :=
  ⟨.info, "nodes accepted", [("request", id), ("count", Text.decimal count)]⟩

def acceptFailed (id : String) (e : PoolError) : Event :=
  ⟨.warn, "accept failed", [("request", id), ("error", e.message)]⟩

/-! ## Giving back and tidying up -/

/-- A lock that is no longer wanted could not be released. -/
def lockNotReleased (path : String) (e : StoreError) : Event :=
  ⟨.warn, "failed to release lock on node", [("node", path), ("error", e.message)]⟩

def nodeReleased (path : String) : Event := ⟨.info, "node released", [("node", path)]⟩

def entryDeleted (path : String) : Event := ⟨.debug, "deleted", [("path", path)]⟩

def entryAbsent (path : String) : Event := ⟨.debug, "already deleted", [("path", path)]⟩

def entryNotDeleted (path : String) (e : StoreError) : Event :=
  ⟨.warn, "failed to delete node", [("path", path), ("error", e.message)]⟩

end Event

end FencedPool
