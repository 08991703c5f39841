/-!
# Request — a consumer's wish for nodes

A request names a pool and a consumer.  Once it has been placed in the store it has a path and an
identity; the scheduler then writes the nodes it allocates and the state of the request into the
stored record.

This file defines `RequestState`, `NodeRequest` and their edits.
-/

namespace FencedPool

/-- How far the scheduler has come with a request. -/
inductive RequestState
  | requested
  | pending
  | fulfilled
  | failed
  deriving DecidableEq, Repr, Inhabited

namespace RequestState

def display : RequestState → String
  | .requested => "requested"
  | .pending => "pending"
  | .fulfilled => "fulfilled"
  | .failed => "failed"

/-- All names, in the order of the states. -/
def names : List String := [requested, pending, fulfilled, failed].map display

def named? : String → Option RequestState
  | "requested" => some .requested
  | "pending" => some .pending
  | "fulfilled" => some .fulfilled
  | "failed" => some .failed
  | _ => none

theorem named?_eq_some_iff {name : String} {s : RequestState} :
    named? name = some s ↔ name = s.display := by
  constructor
  · intro h
    unfold named? at h
    split at h <;> cases h <;> rfl
  · rintro rfl
    cases s <;> rfl

end RequestState

/-- A request for nodes.  The path is where the record is stored and not a part of the record. -/
structure NodeRequest where
  consumerLabel : String
  poolLabel : String
  id : Option String := none
  allocatedNodes : List String := []
  state : RequestState := .requested
  path : Option String := none
  deriving DecidableEq, Repr, Inhabited

namespace NodeRequest

def new (poolLabel consumerLabel : String) : NodeRequest :=
  { consumerLabel := consumerLabel, poolLabel := poolLabel }

def placed (r : NodeRequest) (path id : String) : NodeRequest :=
  { r with path := some path, id := some id }

def withAllocatedNodes (r : NodeRequest) (nodes : List String) : NodeRequest :=
  { r with allocatedNodes := nodes }

def withState (r : NodeRequest) (state : RequestState) : NodeRequest := { r with state := state }

def isFulfilled (r : NodeRequest) : Bool := r.state == .fulfilled

def isFailed (r : NodeRequest) : Bool := r.state == .failed

end NodeRequest

structure MalformedRecord where
  path : String
  reason : String
  deriving DecidableEq, Repr

def MalformedRecord.message (e : MalformedRecord) : String :=
  "malformed record at " ++ e.path ++ ": " ++ e.reason

end FencedPool
