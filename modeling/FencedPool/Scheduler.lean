import FencedPool.Config
import FencedPool.Node.Codec
import FencedPool.Procedure
import FencedPool.Request.Codec

/-!
# Scheduler — provisioning nodes and allocating them to requests

The scheduler works on the store itself, without a session.  It stores nodes that are ready, and in
one pass it looks at the requests in the order of their paths: each that is new gets the nodes that
are ready longest, or fails when there are too few.

An operation that meets an error stops there, and what was done before stays done.

This file defines `Scheduler`, `Scheduler.provision` and `Scheduler.runOnce`.
-/

namespace FencedPool

inductive SchedulerError
  | store (e : StoreError)
  | malformedRecord (e : MalformedRecord)
  deriving DecidableEq, Repr

def SchedulerError.message : SchedulerError → String
  | .store e => e.message
  | .malformedRecord e => e.message

structure Scheduler where
  nodeRoot : String
  requestRoot : String
  /-- the ids of nodes that are not allocated, by their label, longest ready first -/
  ready : Table String (List String) := .empty
  /-- the number of the next node -/
  next : Nat := 1
  deriving DecidableEq

namespace Event

def nodeProvisioned (id label : String) : Event :=
  ⟨.debug, "node provisioned", [("node", id), ("label", label)]⟩

def tooFewReady (path label : String) : Event :=
  ⟨.warn, "not enough ready nodes", [("request", path), ("label", label)]⟩

def requestFulfilled (path : String) (nodes : List String) : Event :=
  ⟨.info, "request fulfilled", [("request", path), ("nodes", .ids nodes)]⟩

end Event

namespace Scheduler

def new (c : Config) : Scheduler := { nodeRoot := c.nodePath, requestRoot := c.requestPath }

def readyNodes (s : Scheduler) (label : String) : List String := (s.ready.get? label).getD []

def readyCount (s : Scheduler) (label : String) : Nat := (s.readyNodes label).length

/-! ## Provisioning -/

def idDigits : Nat := 10

def nodeId (number : Nat) : String := Text.padded 10 idDigits number

def address (number : Nat) : String :=
  "10.0." ++ Text.decimal (number / 256) ++ "." ++ Text.decimal (number % 256)

def nodeRecord (number : Nat) (label : String) : NodeMetadata :=
  let m : NodeMetadata := {}
  m.withLabel label |>.withState "ready" |>.withInterfaceIp (address number)
    |>.withAttribute "provider" (.str "simulated")

def storeNodes (label : String) : Nat → Scheduler × Store →
    Reply (Scheduler × Store) (Except SchedulerError (List String))
  | 0, s => { answer := .ok [], state := s }
  | count + 1, (s, store) =>
      let number := s.next
      let id := nodeId number
      let outcome := store.put (Path.join s.nodeRoot id) (nodeRecord number label).encode
      -- a number is used up even if its node cannot be stored
      let state := ({ s with next := number + 1 }, outcome.2)
      match outcome.1 with
      | .error e => { answer := .error (.store e), state := state }
      | .ok () =>
          let rest := storeNodes label count state
          { rest with
            answer := rest.answer.map (id :: ·)
            journal := { event := .nodeProvisioned id label } :: rest.journal }

def addReady (s : Scheduler) (label : String) (ids : List String) : Scheduler :=
  { s with ready := s.ready.insert label (s.readyNodes label ++ ids) }

/-- Builds so many nodes of a label and gives their ids.  They are ready once all are stored. -/
def provision (s : Scheduler) (store : Store) (count : Nat) (label : String) :
    Reply (Scheduler × Store) (Except SchedulerError (List String)) :=
  let reply := storeNodes label count (s, store)
  match reply.answer with
  | .error _ => reply
  | .ok ids => { reply with state := (reply.state.1.addReady label ids, reply.state.2) }

/-! ## Allocating -/

/-- Decides about a new request: the record to store, and the nodes that are left. -/
def decide (perRequest : Nat) (ready : List String) (r : NodeRequest) : NodeRequest × List String :=
  -- a request never gets a part of what it needs
  if perRequest = 0 ∨ ready.length < perRequest then (r.withState .failed, ready)
  else
    ((r.withAllocatedNodes (ready.take perRequest)).withState .fulfilled, ready.drop perRequest)

/-- Handles the requests at given paths in turn and gives the paths of those that were new. -/
def handle (perRequest : Nat) : List String → Scheduler × Store →
    Reply (Scheduler × Store) (Except SchedulerError (List String))
  | [], s => { answer := .ok [], state := s }
  | path :: rest, (s, store) =>
      match store.get? path with
      -- the entry may have gone since the children were listed
      | none => handle perRequest rest (s, store)
      | some data =>
          match NodeRequest.decode path data with
          | .error e => { answer := .error (.malformedRecord e), state := (s, store) }
          | .ok r =>
              -- somebody has decided about this request already
              if r.state ≠ .requested then handle perRequest rest (s, store)
              else
                let (updated, left) := decide perRequest (s.readyNodes r.poolLabel) r
                -- told before the record is stored, so also when that fails
                let event : Event :=
                  if updated.isFailed then .tooFewReady path r.poolLabel
                  else .requestFulfilled path updated.allocatedNodes
                let outcome := store.setData path updated.encode
                -- the nodes are taken even if the record cannot be stored
                let state := ({ s with ready := s.ready.insert r.poolLabel left }, outcome.2)
                match outcome.1 with
                | .error e =>
                    { answer := .error (.store e), state := state, journal := .ofEvents [event] }
                | .ok () =>
                    let more := handle perRequest rest state
                    { more with
                      answer := more.answer.map (path :: ·)
                      journal := { event := event } :: more.journal }

/-- Handles every request once, giving so many nodes to each that is new. -/
def runOnce (s : Scheduler) (store : Store) (perRequest : Nat) :
    Reply (Scheduler × Store) (Except SchedulerError (List String)) :=
  handle perRequest (store.children s.requestRoot) (s, store)

end Scheduler

end FencedPool
