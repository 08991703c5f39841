/-!
# Watch — waiting for the next change of an entry

A watch on a path resolves with the first change of the entry there, and only once; the event can be
taken once.

This file defines `WatchEvent` and `Watch`.
-/

namespace FencedPool

inductive WatchEvent
  | created (path : String)
  | dataChanged (path : String)
  | deleted (path : String)
  deriving DecidableEq, Repr

def WatchEvent.path : WatchEvent → String
  | .created p | .dataChanged p | .deleted p => p

inductive WatchState
  | pending
  | resolved (event : WatchEvent)
  | taken
  | dropped
  deriving DecidableEq, Repr

structure Watch where
  path : String
  state : WatchState := .pending
  deriving DecidableEq, Repr

namespace Watch

/-- The watch after a change.  It resolves when it was waiting for this entry. -/
def notify (w : Watch) (event : WatchEvent) : Watch :=
  if w.state = .pending ∧ w.path = event.path then { w with state := .resolved event } else w

def take (w : Watch) : Watch :=
  match w.state with
  | .resolved _ => { w with state := .taken }
  | _ => w

def drop (w : Watch) : Watch := { w with state := .dropped }

end Watch

/-- Names a watch in a store, in the order of registration. -/
abbrev WatchId := Nat

end FencedPool
