import FencedPool.Json.Field
import FencedPool.Request

/-!
# Codec — requests as stored records

A request is stored as an object of five fields, without its path.  It is read from such an object,
where other members are passed over and only the labels must be present, or from an array of the
values in the same order.  A record whose labels or allocated nodes are empty texts is refused.

This file defines `NodeRequest.encode` and `NodeRequest.decode`, and the reader of a state.
-/

namespace FencedPool

open Json

def RequestState.read : Reader RequestState := Field.choice names named?

def RequestState.decode (data : Bytes) : Except Fault RequestState :=
  (read (Utf8.symbols data)).bind finish

def RequestState.encode (s : RequestState) : String := (Json.str s.display).text

namespace NodeRequest

structure Draft where
  consumerLabel : Option String := none
  poolLabel : Option String := none
  id : Option (Option String) := none
  allocatedNodes : Option (List String) := none
  state : Option RequestState := none

def member (d : Draft) (key : String) : Reader Draft := fun s =>
  match key with
  | "consumerLabel" =>
      (Field.once key d.consumerLabel Field.text s).map fun r =>
        ({ d with consumerLabel := r.1 }, r.2)
  | "poolLabel" =>
      (Field.once key d.poolLabel Field.text s).map fun r => ({ d with poolLabel := r.1 }, r.2)
  | "nodePoolID" =>
      (Field.once key d.id (Field.optional Field.text) s).map fun r => ({ d with id := r.1 }, r.2)
  | "allocatedNodes" =>
      (Field.once key d.allocatedNodes Field.texts s).map fun r =>
        ({ d with allocatedNodes := r.1 }, r.2)
  | "state" =>
      (Field.once key d.state RequestState.read s).map fun r => ({ d with state := r.1 }, r.2)
  | _ => Field.skip d s

def fromObject : Reader NodeRequest := fun s => do
  let (d, rest) ← members member {} s
  let consumerLabel ← Field.required "consumerLabel" d.consumerLabel
  let poolLabel ← Field.required "poolLabel" d.poolLabel
  .ok (⟨consumerLabel, poolLabel, d.id.getD none, d.allocatedNodes.getD [],
    d.state.getD .requested, none⟩, rest)

/-- What a short array is compared with. -/
def shape : String := "struct NodeRequest with 5 elements"

/-- Reads the array form, whose last two values may be absent. -/
def fromArray : Reader NodeRequest := fun s => do
  let (consumerLabel, s) ← Field.item 0 shape Field.text s
  let (poolLabel, s) ← Field.item 1 shape Field.text s
  let (id, s) ← Field.item 2 shape (Field.optional Field.text) s
  let (nodes, s) ← Field.item? false Field.texts s
  let (state, s) ← Field.item? false RequestState.read s
  .ok (⟨consumerLabel, poolLabel, id, nodes.getD [], state.getD .requested, none⟩, s)

def read (data : Bytes) : Except Fault NodeRequest :=
  (Field.record "struct NodeRequest" fromObject fromArray (Utf8.symbols data)).bind finish

/-- Why a request that was read is of no use. -/
def emptyPart? (r : NodeRequest) : Option String :=
  if r.poolLabel = "" then some "poolLabel is empty"
  else if r.consumerLabel = "" then some "consumerLabel is empty"
  else if "" ∈ r.allocatedNodes then some "allocatedNodes contains an empty entry"
  else none

def decode (path : String) (data : Bytes) : Except MalformedRecord NodeRequest :=
  match read data with
  | .error e => .error ⟨path, e.message⟩
  | .ok r =>
      match r.emptyPart? with
      | some reason => .error ⟨path, reason⟩
      | none => .ok { r with path := some path }

def toJson (r : NodeRequest) : Json :=
  .obj [("consumerLabel", .str r.consumerLabel), ("poolLabel", .str r.poolLabel),
    ("nodePoolID", match r.id with | some id => .str id | none => .null),
    ("allocatedNodes", .arr (r.allocatedNodes.map .str)), ("state", .str r.state.display)]

def encode (r : NodeRequest) : Bytes := Utf8.bytes r.toJson.text

end NodeRequest

end FencedPool
