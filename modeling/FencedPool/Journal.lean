import FencedPool.Node

/-!
# Journal — what is told about a run

Operations report what they do as events with a level, a message and named fields.  Most fields are
texts, and the others keep a value as a whole.  How long a call has taken is left out, since that
does not follow from the call and its answer.

An event that is reported while an operation of the store is under way stands inside the span of
that operation.

This file defines `FieldValue`, `Event`, `Span` and `Journal`, and the events of sessions.
-/

namespace FencedPool

inductive Level
  | trace
  | debug
  | info
  | warn
  | error
  deriving DecidableEq, Repr

def Level.name : Level → String
  | .trace => "TRACE"
  | .debug => "DEBUG"
  | .info => "INFO"
  | .warn => "WARN"
  | .error => "ERROR"

/-- What stands in a field of an event. -/
inductive FieldValue
  | text (s : String)
  /-- whether an entry is there, unless the store could not say -/
  | presence (answer? : Option Bool)
  | metadata (m : NodeMetadata)
  | ids (ids : List String)
  deriving DecidableEq

instance : Coe String FieldValue := ⟨.text⟩

def FieldValue.text? : FieldValue → Option String
  | .text s => some s
  | _ => none

structure Event where
  level : Level
  message : String
  values : List (String × FieldValue) := []
  deriving DecidableEq

/-- The fields that are texts. -/
def Event.fields (e : Event) : List (String × String) :=
  e.values.filterMap fun f => f.2.text?.map (f.1, ·)

/-- An operation during which events are told. -/
structure Span where
  name : String
  fields : List (String × String)
  deriving DecidableEq, Repr

/-- An event with the innermost span around it. -/
structure Record where
  event : Event
  span : Option Span := none
  deriving DecidableEq

abbrev Journal := List Record

namespace Journal

def ofEvents (events : List Event) : Journal := events.map fun e => { event := e }

/-- Puts events that have no span yet into one. -/
def within (span : Span) (j : Journal) : Journal :=
  j.map fun r => { r with span := some (r.span.getD span) }

end Journal

namespace Event

def sessionOpened (id : SessionId) : Event := ⟨.debug, "session opened", [("session", id.display)]⟩

def sessionClosed (id : SessionId) : Event := ⟨.debug, "session closed", [("session", id.display)]⟩

def sessionExpired (id : SessionId) : Event := ⟨.info, "session expired", [("session", id.display)]⟩

end Event

end FencedPool
