import FencedPool.Config
import FencedPool.Request
import FencedPool.Store.Error

/-!
# Error — why a client gives up, and what it could not tidy up

The error of an operation is its outcome.  What fails while tidying up afterwards does not change
that outcome and is reported next to it.

This file defines `PoolError`, `CleanupError` and `CleanupReport`.
-/

namespace FencedPool

inductive PoolError
  | invalidPath (e : InvalidPath)
  | lockUnavailable (path : String) (holder : SessionId)
  | store (e : StoreError)
  | malformedRecord (e : MalformedRecord)
  | notAllocated (id : String)
  | notPlaced
  | config (e : ConfigError)
  deriving DecidableEq, Repr

namespace PoolError

/-- The error of a refused call.  A lock that is held is told apart from all other refusals. -/
def ofStore : StoreError → PoolError
  | .lockHeld path holder => .lockUnavailable path holder
  | e => .store e

def message : PoolError → String
  | .invalidPath e => e.message
  | .lockUnavailable path holder => (StoreError.lockHeld path holder).message
  | .store e => "store error: " ++ e.message
  | .malformedRecord e => e.message
  | .notAllocated id => "request " ++ id ++ " has no allocated nodes"
  | .notPlaced => "request has not been placed in the store"
  | .config e => "config error: " ++ e.message

def isNoNode : PoolError → Bool
  | .store e => e.isNoNode
  | _ => false

end PoolError

/-- A step of tidying up that failed. -/
inductive CleanupError
  | release (path : String) (cause : StoreError)
  | delete (path : String) (cause : StoreError)
  deriving DecidableEq, Repr

namespace CleanupError

def path : CleanupError → String
  | .release p _ | .delete p _ => p

def cause : CleanupError → StoreError
  | .release _ e | .delete _ e => e

def message : CleanupError → String
  | .release path cause => "failed to release lock on " ++ path ++ ": " ++ cause.message
  | .delete path cause => "failed to delete " ++ path ++ ": " ++ cause.message

end CleanupError

/-- The steps of tidying up that failed, in order. -/
structure CleanupReport where
  failures : List CleanupError := []
  deriving DecidableEq, Repr, Inhabited

namespace CleanupReport

def push (r : CleanupReport) (e : CleanupError) : CleanupReport := ⟨r.failures ++ [e]⟩

def merge (r other : CleanupReport) : CleanupReport := ⟨r.failures ++ other.failures⟩

def isClean (r : CleanupReport) : Bool := r.failures.isEmpty

end CleanupReport

end FencedPool
