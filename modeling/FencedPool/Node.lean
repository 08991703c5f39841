import FencedPool.Json.Value
import FencedPool.Lock
import FencedPool.Path

/-!
# Node — what the scheduler stores about a node, and the hold on one

The metadata of a node are four known fields, each of which may be absent, and any further
attributes.  A node that has been accepted is held through the token of its lock.

This file defines `NodeMetadata` and `NodeHandle`.
-/

namespace FencedPool

structure NodeMetadata where
  label : Option String := none
  state : Option String := none
  interfaceIp : Option String := none
  connectionPort : Option UInt16 := none
  attributes : Table String Json := .empty
  deriving DecidableEq

namespace NodeMetadata

def withLabel (m : NodeMetadata) (label : String) : NodeMetadata := { m with label := some label }

def withState (m : NodeMetadata) (state : String) : NodeMetadata := { m with state := some state }

def withInterfaceIp (m : NodeMetadata) (ip : String) : NodeMetadata :=
  { m with interfaceIp := some ip }

def withConnectionPort (m : NodeMetadata) (port : UInt16) : NodeMetadata :=
  { m with connectionPort := some port }

/-- The metadata with an attribute, in place of one of the same name. -/
def withAttribute (m : NodeMetadata) (key : String) (value : Json) : NodeMetadata :=
  { m with attributes := m.attributes.insert key value }

end NodeMetadata

/-- The hold on a node: the token of its lock and what was stored about it when it was accepted. -/
structure NodeHandle where
  lock : LockToken
  metadata : NodeMetadata
  deriving DecidableEq

namespace NodeHandle

def path (h : NodeHandle) : String := h.lock.path

def nodeId (h : NodeHandle) : String := Path.lastSegment h.path

end NodeHandle

end FencedPool
