import FencedPool.Proofs.Procedure.Dialogue

/-!
# Telling — the events of a procedure beside its dialogue

What a procedure tells depends on the answers to its calls, as its result does.  In a run the events
of the procedure stand in the journal next to whatever the session tells about its calls.

This file defines:

* `Procedure.Tells` — the events and the result for given answers;
* `Procedure.told` — the events of a run.

The main statements are `tells_run` and `journal_of_silent`, with `journal_plain` for sessions that
work on the store itself.
-/

namespace FencedPool

namespace Procedure

variable {α β σ : Type}

/-- Whether a procedure tells events and gives a result when its calls are answered so. -/
def Tells : Procedure α → List Exchange → List Event → α → Prop
  | .done b, dialogue, events, a => dialogue = [] ∧ events = [] ∧ b = a
  | .call c next, dialogue, events, a =>
      ∃ answer rest, dialogue = ⟨c, answer⟩ :: rest ∧ (next answer).Tells rest events a
  | .tell event next, dialogue, events, a =>
      ∃ rest, events = event :: rest ∧ next.Tells dialogue rest a

@[simp] theorem tells_ask_bind {c : Call} {k : Except StoreError c.Answer → Procedure β}
    {dialogue : List Exchange} {events : List Event} {b : β} :
    (ask c >>= k).Tells dialogue events b ↔
      ∃ answer rest, dialogue = ⟨c, answer⟩ :: rest ∧ (k answer).Tells rest events b := Iff.rfl

@[simp] theorem tells_note_bind {event : Event} {k : Unit → Procedure β}
    {dialogue : List Exchange} {events : List Event} {b : β} :
    (note event >>= k).Tells dialogue events b ↔
      ∃ rest, events = event :: rest ∧ (k ()).Tells dialogue rest b := Iff.rfl

/-- What a procedure tells after another comes after what the other tells. -/
theorem tells_bind {p : Procedure α} {k : α → Procedure β} {dialogue : List Exchange}
    {events : List Event} {b : β} (h : (p >>= k).Tells dialogue events b) :
    ∃ first rest early late a, dialogue = first ++ rest ∧ events = early ++ late ∧
      p.Tells first early a ∧ (k a).Tells rest late b := by
  -- by recursion on the first procedure, whose calls and events come first
  change (p.bind k).Tells dialogue events b at h
  induction p generalizing dialogue events with
  | done a => exact ⟨[], dialogue, [], events, a, rfl, rfl, ⟨rfl, rfl, rfl⟩, h⟩
  | call c next ih =>
      rcases h with ⟨answer, tail, rfl, h⟩
      rcases ih answer h with ⟨first, rest, early, late, a, rfl, rfl, hfirst, hrest⟩
      exact ⟨⟨c, answer⟩ :: first, rest, early, late, a, rfl, rfl, ⟨answer, first, rfl, hfirst⟩,
        hrest⟩
  | tell event next ih =>
      rcases h with ⟨tail, rfl, h⟩
      rcases ih h with ⟨first, rest, early, late, a, rfl, rfl, hfirst, hrest⟩
      exact ⟨first, rest, event :: early, late, a, rfl, rfl, ⟨early, rfl, hfirst⟩, hrest⟩

/-- The events that a procedure tells in a run. -/
def told (session : Session σ) : Procedure α → σ → List Event
  | .done _, _ => []
  | .call c next, s =>
      let reply := session.perform c s
      (next reply.answer).told session reply.state
  | .tell event next, s => event :: next.told session s

/-- A run tells what its dialogue makes the procedure tell. -/
theorem tells_run (session : Session σ) (p : Procedure α) (s : σ) :
    p.Tells (p.exchanges session s) (p.told session s) (p.run session s).answer := by
  induction p generalizing s with
  | done a => exact ⟨rfl, rfl, rfl⟩
  | call c next ih => exact ⟨_, _, rfl, ih _ _⟩
  | tell event next ih => exact ⟨_, rfl, ih s⟩

/-- On a session that tells nothing itself, the journal has the events of the procedure. -/
theorem journal_of_silent {session : Session σ}
    (hsilent : ∀ c s, (session.perform c s).journal = []) (p : Procedure α) (s : σ) :
    (p.run session s).journal = .ofEvents (p.told session s) := by
  induction p generalizing s with
  | done a => rfl
  | call c next ih =>
      simp only [run, told, hsilent, List.nil_append]
      exact ih _ _
  | tell event next ih =>
      simp only [run, told, ih s]
      rfl

/-- A plain session tells nothing itself. -/
theorem journal_plain (id : SessionId) (p : Procedure α) (s : Store) :
    (p.run (.plain id) s).journal = .ofEvents (p.told (.plain id) s) := by
  refine journal_of_silent (fun c s => ?_) p s
  simp only [Session.plain]
  split
  · rfl
  · rfl

end Procedure

end FencedPool
