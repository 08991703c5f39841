import FencedPool.Procedure

/-!
# Recorded — sessions that keep a list of calls and fail on demand

To see how a client copes with a failing store, a session is made to refuse an operation on a path.
It records every call, also a refused one, and passes on those that it does not refuse.

This file defines `Operation`, `Recorder` and `Session.recorded`.
-/

namespace FencedPool

inductive Operation
  | create
  | read
  | isPresent
  | delete
  | acquire
  | release
  | watch
  deriving DecidableEq, Repr

namespace Call

def operation : Call → Operation
  | .create _ _ => .create
  | .read _ => .read
  | .isPresent _ => .isPresent
  | .delete _ => .delete
  | .acquire _ => .acquire
  | .release _ => .release
  | .watch _ => .watch

/-- The path that a call is about; for a creation, what the path will start with. -/
def target : Call → String
  | .create stem _ => stem
  | .read path | .isPresent path | .delete path | .acquire path | .watch path => path
  | .release token => token.path

end Call

/-- The calls that were made and the failures that are in force. -/
structure Recorder where
  calls : List (Operation × String) := []
  failures : List ((Operation × String) × StoreError) := []
  deriving DecidableEq, Repr, Inhabited

namespace Recorder

def record (r : Recorder) (c : Call) : Recorder :=
  { r with calls := r.calls ++ [(c.operation, c.target)] }

/-- The failure in force for a call: the one that was injected last. -/
def failure? (r : Recorder) (c : Call) : Option StoreError :=
  r.failures.lookup (c.operation, c.target)

def fail (r : Recorder) (operation : Operation) (path : String) (error : StoreError) : Recorder :=
  { r with failures := ((operation, path), error) :: r.failures }

def clearFailures (r : Recorder) : Recorder := { r with failures := [] }

def pathsOf (r : Recorder) (operation : Operation) : List String :=
  (r.calls.filter (·.1 = operation)).map (·.2)

def lockAttempts (r : Recorder) : List String := r.pathsOf .acquire

def lockReleases (r : Recorder) : List String := r.pathsOf .release

end Recorder

/-- Records calls and refuses those with a failure in force. -/
def Session.recorded {σ : Type} (inner : Session σ) : Session (Recorder × σ) where
  id := inner.id
  perform c s :=
    let recorder := s.1.record c
    match recorder.failure? c with
    | some error => { answer := .error error, state := (recorder, s.2) }
    | none =>
        let reply := inner.perform c s.2
        { answer := reply.answer, state := (recorder, reply.state), journal := reply.journal }

end FencedPool
