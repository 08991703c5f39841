import FencedPool.Procedure

/-!
# Plain — sessions that work on the store itself

A session answers calls as long as it is open.  Entries that it creates and locks that it acquires
belong to it.

This file defines `Session.plain`, and `Session.beside` for a session next to a further state.
-/

namespace FencedPool

namespace Session

/-- What the store answers to a call of an open session. -/
def answer (id : SessionId) (s : Store) : (c : Call) → Store.Outcome c.Answer
  | .create stem data => s.createSequential stem data (some id)
  | .read path => (s.read path, s)
  | .isPresent path => (s.isPresent path, s)
  | .delete path => s.delete path
  | .acquire path => s.acquire path id
  | .release token => s.release token
  | .watch path => s.watch path

def plain (id : SessionId) : Session Store where
  id := id
  perform c s :=
    if s.isSessionOpen id then
      let outcome := answer id s c
      { answer := outcome.1, state := outcome.2 }
    else { answer := .error (.sessionExpired id), state := s }

/-- A session that leaves a further part of the state alone. -/
def beside {ρ σ : Type} (session : Session σ) : Session (ρ × σ) where
  id := session.id
  perform c s :=
    let reply := session.perform c s.2
    { answer := reply.answer, state := (s.1, reply.state), journal := reply.journal }

end Session

end FencedPool
