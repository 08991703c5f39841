import FencedPool.Duration
import FencedPool.Mismatch
import FencedPool.Path
import FencedPool.Text.Blank
import FencedPool.Text.Padded
import FencedPool.Text.Quoted

/-!
# Config — the settings of a client

Every setting has a default.  The three roots are single segments below one namespace, so requests,
request locks and nodes are looked for in direct children of it.

This file defines:

* `Config`, its paths, and the defaults;
* `ConfigFault` and `Config.fault?` — the first reason why settings cannot be used;
* `ConfigError` — why settings could not be loaded.
-/

namespace FencedPool

structure Config where
  connection : String := "127.0.0.1:2181"
  basePath : String := "/nodepool"
  requestRoot : String := "requests"
  requestLockRoot : String := "requests-lock"
  nodeRoot : String := "nodes"
  priority : UInt32 := 100
  credentialsId : Option String := none
  sessionTimeout : Duration := .halfMinute
  deriving DecidableEq

/-- A setting that names a segment below the namespace. -/
inductive Root
  | request
  | requestLock
  | node
  deriving DecidableEq, Repr

def Root.name : Root → String
  | .request => "request_root"
  | .requestLock => "request_lock_root"
  | .node => "node_root"

inductive ConfigFault
  | connectionBlank
  | basePathMalformed (path : String)
  | rootNotOneSegment (root : Root) (value : String)
  | timeoutZero
  deriving DecidableEq, Repr

def ConfigFault.message : ConfigFault → String
  | .connectionBlank => "connection is empty"
  | .basePathMalformed path =>
      "namespace must be an absolute path below /: " ++ Text.quoted path
  | .rootNotOneSegment root value =>
      root.name ++ " must be a single path segment: " ++ Text.quoted value
  | .timeoutZero => "session_timeout must be positive"

namespace Config

def forConnection (connection : String) : Config := { connection := connection }

def withPriority (c : Config) (priority : UInt32) : Config := { c with priority := priority }

/-- The settings with a namespace, the path above all roots. -/
def withBasePath (c : Config) (path : String) : Config := { c with basePath := path }

def withCredentialsId (c : Config) (id : String) : Config := { c with credentialsId := some id }

def withSessionTimeout (c : Config) (timeout : Duration) : Config :=
  { c with sessionTimeout := timeout }

def root (c : Config) : Root → String
  | .request => c.requestRoot
  | .requestLock => c.requestLockRoot
  | .node => c.nodeRoot

def isSegment (s : String) : Bool := s ≠ "" && !s.toList.contains '/'

def rootFault? (c : Config) (r : Root) : Option ConfigFault :=
  if isSegment (c.root r) then none else some (.rootNotOneSegment r (c.root r))

/-- The first reason why the settings cannot be used. -/
def fault? (c : Config) : Option ConfigFault :=
  if Text.isAllBlank c.connection then some .connectionBlank
  else if c.basePath = Path.root ∨ ¬ Path.isValid c.basePath then
    some (.basePathMalformed c.basePath)
  else
    match [Root.request, .requestLock, .node].findSome? c.rootFault? with
    | some fault => some fault
    | none => if c.sessionTimeout.isZero then some .timeoutZero else none

/-! ## Paths -/

def requestPath (c : Config) : String := Path.join c.basePath c.requestRoot

def requestLockPath (c : Config) : String := Path.join c.basePath c.requestLockRoot

def nodePath (c : Config) : String := Path.join c.basePath c.nodeRoot

/-- What a new request's path starts with; the store appends a sequence number. -/
def requestStem (c : Config) : String :=
  c.requestPath ++ "/" ++ Text.decimal c.priority.toNat ++ Path.sequenceSeparator.toString

end Config

inductive ConfigError
  | unreadable (file reason : String)
  | malformed (mismatch : Option Mismatch)
  | invalid (fault : ConfigFault)
  deriving DecidableEq, Repr

def ConfigError.message : ConfigError → String
  | .unreadable file reason => "failed to read config " ++ file ++ ": " ++ reason
  | .malformed _ => "failed to parse config"
  | .invalid fault => "invalid config: " ++ fault.message

end FencedPool
