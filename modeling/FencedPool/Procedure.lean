import FencedPool.Journal
import FencedPool.Store

/-!
# Procedure — programs that a client runs on a session

A client talks to the store only through seven calls of its session, and any of them can fail.  A
procedure is such a program: it makes calls, goes on with their answers, and tells events.  What the
store answers is left open, so a statement about a procedure holds for every store.

This file defines:

* `Call` and its `Answer`;
* `Procedure` and its monad;
* `Session` and `Procedure.run` — a procedure on a session with a state.
-/

namespace FencedPool

/-- What can be asked of a session. -/
inductive Call
  | create (stem : String) (data : Bytes)
  | read (path : String)
  | isPresent (path : String)
  | delete (path : String)
  | acquire (path : String)
  | release (token : LockToken)
  | watch (path : String)
  deriving DecidableEq, Repr

abbrev Call.Answer : Call → Type
  | .create _ _ => String
  | .read _ => Bytes
  | .isPresent _ => Bool
  | .delete _ => Unit
  | .acquire _ => LockToken
  | .release _ => Unit
  | .watch _ => WatchId

/-- A program over calls and events. -/
inductive Procedure (α : Type) : Type
  | done (a : α)
  | call (c : Call) (next : Except StoreError c.Answer → Procedure α)
  | tell (event : Event) (next : Procedure α)

namespace Procedure

variable {α β : Type}

def bind : Procedure α → (α → Procedure β) → Procedure β
  | .done a, k => k a
  | .call c next, k => .call c fun answer => (next answer).bind k
  | .tell event next, k => .tell event (next.bind k)

instance : Monad Procedure where
  pure := .done
  bind := bind

def ask (c : Call) : Procedure (Except StoreError c.Answer) := .call c .done

def note (event : Event) : Procedure Unit := .tell event (.done ())

end Procedure

/-! ## Running -/

/-- What an operation gives: its answer, the state after it, and what it has told. -/
structure Reply (σ α : Type) where
  answer : α
  state : σ
  journal : Journal := []

/-- A session: its identity, and how it answers a call in a state. -/
structure Session (σ : Type) where
  id : SessionId
  perform : (c : Call) → σ → Reply σ (Except StoreError c.Answer)

namespace Procedure

variable {α β σ : Type}

def run (session : Session σ) : Procedure α → σ → Reply σ α
  | .done a, s => { answer := a, state := s }
  | .call c next, s =>
      let reply := session.perform c s
      let rest := (next reply.answer).run session reply.state
      { rest with journal := reply.journal ++ rest.journal }
  | .tell event next, s =>
      let rest := next.run session s
      { rest with journal := { event := event } :: rest.journal }

theorem run_bind (session : Session σ) (p : Procedure α) (k : α → Procedure β) (s : σ) :
    (p.bind k).run session s =
      let first := p.run session s
      let rest := (k first.answer).run session first.state
      { rest with journal := first.journal ++ rest.journal } := by
  induction p generalizing s with
  | done a => rfl
  | call c next ih => simp [bind, run, ih]
  | tell event next ih => simp [bind, run, ih]

end Procedure

end FencedPool
