import FencedPool.Lock
import FencedPool.Text.Quoted

/-!
# Error — why the store refuses

This file defines `StoreError` and its wording.
-/

namespace FencedPool

inductive StoreError
  | noNode (path : String)
  | nodeExists (path : String)
  | notEmpty (path : String)
  | badPath (path : String)
  | lockHeld (path : String) (holder : SessionId)
  | lockNotHeld (path : String)
  | sessionExpired (session : SessionId)
  | unavailable (reason : String)
  deriving DecidableEq, Repr

namespace StoreError

def message : StoreError → String
  | .noNode path => "no node at " ++ path
  | .nodeExists path => "node already exists at " ++ path
  | .notEmpty path => "node at " ++ path ++ " has children"
  | .badPath path => "malformed path: " ++ Text.quoted path
  | .lockHeld path holder => "lock on " ++ path ++ " is held by session " ++ holder.display
  | .lockNotHeld path => "lock on " ++ path ++ " is not held by this token"
  | .sessionExpired session => "session " ++ session.display ++ " has expired"
  | .unavailable reason => "store unavailable: " ++ reason

def isNoNode : StoreError → Bool
  | .noNode _ => true
  | _ => false

end StoreError

end FencedPool
