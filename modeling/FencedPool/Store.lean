import FencedPool.Clock
import FencedPool.Path
import FencedPool.Store.Error
import FencedPool.Store.Watch
import FencedPool.Table
import FencedPool.Text.Utf8

/-!
# Store — the shared tree of entries

Entries are kept by their paths.  A persistent entry stays until it is deleted; an entry that a
session owns goes away with the session, and so do the locks that the session holds.  Each entry can
carry one lock.  Every change of an entry resolves the watches on it.

An operation gives its answer together with the store after it, also when it fails.

This file defines:

* `Entry`, `SessionRecord` and `Store`;
* `put`, `setData`, `createSequential`, `delete` — changes of entries;
* `acquire`, `release` — changes of locks;
* `watch`, `poll`, `dropWatch`;
* `openSession`, `heartbeat`, `closeSession`, `expire`;
* `get?`, `contains`, `children`, `lockHolder?`, `isSessionOpen` — what can be asked of it.
-/

namespace FencedPool

structure Entry where
  data : Bytes
  owner : Option SessionId := none
  deriving DecidableEq, Repr

structure SessionRecord where
  lastHeartbeat : Instant
  timeout : Duration
  deriving DecidableEq, Repr

structure Store where
  entries : Table String Entry := .empty
  /-- the next sequence number below each parent -/
  sequences : Table String Nat := .empty
  locks : Table String PathLock := .empty
  watches : List Watch := []
  sessions : Table SessionId SessionRecord := .empty
  /-- how many sessions have been opened -/
  opened : Nat := 0
  /-- how many locks have been granted, which is the fence of the last one -/
  grants : Nat := 0
  deriving DecidableEq, Inhabited

namespace Store

/-- An answer and the store after the operation. -/
abbrev Outcome (α : Type) := Except StoreError α × Store

/-! ## Paths -/

/-- Whether an entry may stand at a path: any well-formed path but the root. -/
def isEntryPath (path : String) : Bool := Path.isValid path && path != Path.root

def checkingPath {α : Type} (s : Store) (path : String) (next : Outcome α) : Outcome α :=
  if isEntryPath path then next else (.error (.badPath path), s)

/-! ## Changes of entries -/

def fire (s : Store) (event : WatchEvent) : Store :=
  { s with watches := s.watches.map (·.notify event) }

def write (s : Store) (path : String) (entry : Entry) (event : WatchEvent) : Store :=
  { s with entries := s.entries.insert path entry }.fire event

def remove (s : Store) (path : String) : Store :=
  { s with entries := s.entries.erase path }.fire (.deleted path)

/-- Creates the missing ones among given ancestors.  None of them may belong to a session. -/
def ensureParents (s : Store) : List String → Outcome Unit
  | [] => (.ok (), s)
  | path :: rest =>
      match s.entries.get? path with
      | none => (s.write path { data := [] } (.created path)).ensureParents rest
      | some entry =>
          if entry.owner.isSome then
            (.error (.badPath (path ++ " is ephemeral and cannot have children")), s)
          else s.ensureParents rest

/-- Goes on with the store in which all ancestors of a path exist. -/
def belowParents {α : Type} (s : Store) (path : String) (next : Store → Outcome α) : Outcome α :=
  match s.ensureParents (Path.ancestors path) with
  | (.error e, s') => (.error e, s')
  | (.ok (), s') => next s'

/-- Creates or overwrites an entry; a new one is persistent. -/
def put (s : Store) (path : String) (data : Bytes) : Outcome Unit :=
  s.checkingPath path <| s.belowParents path fun s =>
    match s.entries.get? path with
    | some entry => (.ok (), s.write path { entry with data := data } (.dataChanged path))
    | none => (.ok (), s.write path { data := data } (.created path))

def setData (s : Store) (path : String) (data : Bytes) : Outcome Unit :=
  s.checkingPath path <|
    match s.entries.get? path with
    | some entry => (.ok (), s.write path { entry with data := data } (.dataChanged path))
    | none => (.error (.noNode path), s)

def sequenceDigits : Nat := 10

/-- Creates an entry whose path is a stem with the parent's next sequence number.  The number is
used up even when an entry stands there already. -/
def createSequential (s : Store) (stem : String) (data : Bytes) (owner : Option SessionId) :
    Outcome String :=
  match (Path.parent? stem).filter (· ≠ Path.root) with
  | none => (.error (.badPath stem), s)
  | some parent =>
      s.checkingPath parent <| s.belowParents stem fun s =>
        -- each parent counts for itself, from zero
        let number := (s.sequences.get? parent).getD 0
        let path := stem ++ Text.padded 10 sequenceDigits number
        -- the counter moves on before it is known whether the path is free
        let s := { s with sequences := s.sequences.insert parent (number + 1) }
        s.checkingPath path <|
          if s.entries.contains path then (.error (.nodeExists path), s)
          else (.ok path, s.write path ⟨data, owner⟩ (.created path))

/-- What the paths of all descendants start with. -/
def stemBelow (path : String) : List Char :=
  if path = Path.root then ['/'] else path.toList ++ ['/']

def isBelow (above path : String) : Bool := (stemBelow above).isPrefixOf path.toList

/-- The paths in the order of the entries, from where the descendants of a path would begin. -/
def pathsFrom (s : Store) (path : String) : List String :=
  s.entries.keysFrom (String.ofList (stemBelow path))

/-- Whether an entry has descendants.  Only the first path that could be one is looked at. -/
def hasDescendant (s : Store) (path : String) : Bool := (s.pathsFrom path).head?.any (isBelow path)

/-- Deletes an entry that has no children. -/
def delete (s : Store) (path : String) : Outcome Unit :=
  s.checkingPath path <|
    if !s.entries.contains path then (.error (.noNode path), s)
    -- a lock on the entry is not looked at, and stays
    else if s.hasDescendant path then (.error (.notEmpty path), s)
    else (.ok (), s.remove path)

/-! ## Questions -/

def get? (s : Store) (path : String) : Option Bytes :=
  if isEntryPath path then (s.entries.get? path).map (·.data) else none

def contains (s : Store) (path : String) : Bool := isEntryPath path && s.entries.contains path

def read (s : Store) (path : String) : Except StoreError Bytes :=
  if isEntryPath path then
    match s.entries.get? path with
    | some entry => .ok entry.data
    | none => .error (.noNode path)
  else .error (.badPath path)

def isPresent (s : Store) (path : String) : Except StoreError Bool :=
  if isEntryPath path then .ok (s.entries.contains path) else .error (.badPath path)

def isChild (parent path : String) : Bool :=
  isBelow parent path && !(path.toList.drop (stemBelow parent).length).contains '/'

/-- The paths of the direct children, ascending.  The descendants stand together, so reading stops
at the first path that is none. -/
def children (s : Store) (path : String) : List String :=
  ((s.pathsFrom path).takeWhile (isBelow path)).filter (isChild path)

def lockHolder? (s : Store) (path : String) : Option SessionId :=
  (s.locks.get? path).bind (·.holder?)

/-! ## Locks -/

/-- Grants the lock of an entry to a session, unless it is held. -/
def acquire (s : Store) (path : String) (session : SessionId) : Outcome LockToken :=
  s.checkingPath path <|
    if !s.entries.contains path then (.error (.noNode path), s)
    else
      -- a lock that was never taken, or was freed, has no record
      let lock := (s.locks.get? path).getD (.new path)
      match lock.transition (.acquire session (s.grants + 1)) with
      | (next, .acquired token) =>
          (.ok token, { s with locks := s.locks.insert path next, grants := s.grants + 1 })
      | (_, .denied current) => (.error (.lockHeld path current), s)
      | _ => (.error (.unavailable ("unexpected lock transition on " ++ path)), s)

/-- Frees a lock.  Only the token of the current grant does. -/
def release (s : Store) (token : LockToken) : Outcome Unit :=
  match s.locks.get? token.path with
  | none => (.error (.lockNotHeld token.path), s)
  | some lock =>
      match lock.transition (.release token) with
      | (_, .released _) => (.ok (), { s with locks := s.locks.erase token.path })
      | _ => (.error (.lockNotHeld token.path), s)

/-! ## Watches -/

/-- Registers a watch on a path, whether or not an entry stands there. -/
def watch (s : Store) (path : String) : Outcome WatchId :=
  s.checkingPath path (.ok s.watches.length, { s with watches := s.watches ++ [{ path := path }] })

/-- The state of a watch, and the store in which its event has been taken. -/
def poll (s : Store) (id : WatchId) : Option WatchState × Store :=
  ((s.watches[id]?).map (·.state), { s with watches := s.watches.modify id (·.take) })

def dropWatch (s : Store) (id : WatchId) : Store :=
  { s with watches := s.watches.modify id (·.drop) }

/-! ## Sessions -/

def openSession (s : Store) (now : Instant) (timeout : Duration) : SessionId × Store :=
  -- numbers are never used again
  let id : SessionId := ⟨s.opened + 1⟩
  (id, { s with sessions := s.sessions.insert id ⟨now, timeout⟩, opened := s.opened + 1 })

def isSessionOpen (s : Store) (id : SessionId) : Bool := s.sessions.contains id

def heartbeat (s : Store) (id : SessionId) (now : Instant) : Outcome Unit :=
  match s.sessions.get? id with
  | none => (.error (.sessionExpired id), s)
  | some record =>
      (.ok (), { s with sessions := s.sessions.insert id { record with lastHeartbeat := now } })

def ownedBy (s : Store) (id : SessionId) : List String :=
  (s.entries.filter fun _ e => e.owner == some id).keys

/-- The locks after a session has ended: free ones are not kept. -/
def locksWithout (s : Store) (id : SessionId) : Table String PathLock :=
  (s.locks.map fun l => (l.transition (.sessionClosed id)).1).filter fun _ l => !l.isFree

/-- Ends a session, with its entries and its locks. -/
def closeSession (s : Store) (id : SessionId) : Store :=
  if s.isSessionOpen id then
    let s := { s with sessions := s.sessions.erase id }
    -- the entries that belong to the session fire their watches one by one
    let s := (s.ownedBy id).foldl remove s
    { s with locks := s.locksWithout id }
  else s

/-- The sessions whose last heartbeat lies longer back than their timeout, ascending. -/
def stale (s : Store) (clock : Clock) : List SessionId :=
  let isStale := fun (r : SessionRecord) =>
    -- a session may be silent for exactly its timeout
    r.timeout.toNanos < (clock.elapsedSince r.lastHeartbeat).toNanos
  (s.sessions.filter fun _ r => isStale r).keys

def expire (s : Store) (clock : Clock) : List SessionId × Store :=
  (s.stale clock, (s.stale clock).foldl closeSession s)

end Store

end FencedPool
