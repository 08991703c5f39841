import FencedPool.Toml.Value

/-!
# Tables — how keys and headers build a document

A dotted key names a place in nested tables.  On the way to that place, missing tables are opened
and existing ones are entered, and who may enter which table depends on how the table was opened:

* a key on a line enters tables that keys or deeper headers have opened;
* a key between braces enters tables that such keys have opened;
* a header enters every table that is not between braces, and the last row of a list of tables.

A key never takes the place of another, and a table has at most one header.

This file defines `Place`, `Mode`, `descend`, and with them `addPair?` and `addSection?`.
-/

namespace FencedPool

namespace Toml

/-- A dotted key: the tables on the way, and the key in the last of them. -/
structure Place where
  tables : List String
  key : String
  deriving DecidableEq, Repr

/-- Who is on the way to a place: how a missing table is opened and which are entered. -/
structure Mode where
  opens : Origin
  enters : Origin → Bool

namespace Mode

def line : Mode := ⟨.dotted, fun o => o == .dotted || o == .implied⟩

def braces : Mode := ⟨.inlineDotted, fun o => o == .inlineDotted⟩

def heading : Mode := ⟨.implied, fun o => o == .dotted || o == .implied || o == .header⟩

end Mode

namespace Body

def find? (key : String) : Body → Option Value
  | [] => none
  | e :: rest => if e.1 = key then some e.2 else find? key rest

def replace (key : String) (v : Value) (entries : Body) : Body :=
  entries.map fun e => if e.1 = key then (key, v) else e

def erase (key : String) (entries : Body) : Body := entries.filter (·.1 ≠ key)

def push (key : String) (v : Value) (entries : Body) : Body := entries ++ [(key, v)]

end Body

open Body

/-- Changes the table at the end of a way.  The change learns how that table was opened. -/
def descend (mode : Mode) (change : Origin → Body → Option Body) :
    List String → Origin → Body → Option Body
  | [], origin, entries => change origin entries
  | key :: rest, _, entries =>
      match find? key entries with
      | none => do
          -- all tables on the rest of the way are missing as well
          let inner ← descend mode change rest mode.opens []
          some (push key (.table mode.opens inner) entries)
      | some (.table origin inner) => do
          if mode.enters origin then
            let inner ← descend mode change rest origin inner
            some (replace key (.table origin inner) entries)
          else none
      | some (.tables rows) => do
          -- a way through a list goes to its last row
          let row ← descend mode change rest .header (← rows.getLast?)
          some (replace key (.tables (rows.dropLast ++ [row])) entries)
      | some _ => none

/-- Adds a value at a place.  A dotted key ends in a table that dotted keys have opened. -/
def addPair? (mode : Mode) (entries : Body) (pair : Place × Value) : Option Body :=
  let add := fun (origin : Origin) (inner : Body) =>
    if (pair.1.tables = [] ∨ origin = mode.opens) ∧ (find? pair.1.key inner).isNone then
      some (push pair.1.key pair.2 inner)
    else none
  descend mode add pair.1.tables .header entries

def addPairs? (mode : Mode) (entries : Body) (pairs : List (Place × Value)) : Option Body :=
  pairs.foldlM (addPair? mode) entries

inductive Header
  | table (place : Place)
  | row (place : Place)
  deriving DecidableEq, Repr

structure Section where
  header : Header
  pairs : List (Place × Value)

/-- Adds a section.  A table that is so far only implied by the headers of tables inside it moves to
the end of its parent. -/
def addSection? (entries : Body) (part : Section) : Option Body :=
  let fill := fun (inner : Body) => addPairs? .line inner part.pairs
  match part.header with
  | .table place =>
      let add := fun (_ : Origin) (inner : Body) =>
        match find? place.key inner with
        | none => (fill []).map fun t => push place.key (.table .header t) inner
        -- only an implied table may still get a header of its own
        | some (.table .implied old) =>
            (fill old).map fun t => push place.key (.table .header t) (erase place.key inner)
        | some _ => none
      descend .heading add place.tables .header entries
  | .row place =>
      let add := fun (_ : Origin) (inner : Body) =>
        match find? place.key inner with
        | none => (fill []).map fun t => push place.key (.tables [t]) inner
        | some (.tables rows) =>
            (fill []).map fun t => replace place.key (.tables (rows ++ [t])) inner
        | some _ => none
      descend .heading add place.tables .header entries

def build? (pairs : List (Place × Value)) (sections : List Section) : Option Body := do
  sections.foldlM addSection? (← addPairs? .line [] pairs)

end Toml

end FencedPool
