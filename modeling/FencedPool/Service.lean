import FencedPool.Procedure

/-!
# Service — a store that opens and ends sessions by the clock

This file defines `Service`: a store together with its clock and the timeout that new sessions get.
-/

namespace FencedPool

/-- A store, its clock, and the timeout of sessions that are opened from now on. -/
structure Service where
  store : Store := {}
  clock : Clock := {}
  sessionTimeout : Duration := .halfMinute
  deriving DecidableEq

namespace Service

def openSession (s : Service) : Reply Service SessionId :=
  let (id, store) := s.store.openSession s.clock.now s.sessionTimeout
  { answer := id, state := { s with store := store }, journal := .ofEvents [.sessionOpened id] }

def heartbeat (s : Service) (id : SessionId) : Except StoreError Unit × Service :=
  let outcome := s.store.heartbeat id s.clock.now
  (outcome.1, { s with store := outcome.2 })

/-- Ends a session; one that has ended already stays as it is. -/
def closeSession (s : Service) (id : SessionId) : Reply Service Unit :=
  { answer := ()
    state := { s with store := s.store.closeSession id }
    journal := if s.store.isSessionOpen id then .ofEvents [.sessionClosed id] else [] }

/-- Ends every session that has been silent for longer than its timeout. -/
def expire (s : Service) : Reply Service (List SessionId) :=
  let (ids, store) := s.store.expire s.clock
  { answer := ids
    state := { s with store := store }
    journal := .ofEvents (ids.map .sessionExpired) }

end Service

end FencedPool
