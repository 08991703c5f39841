import FencedPool.Proofs.Session.Wrappers
import FencedPool.Simulation

/-!
# Steps — how the steps of a simulation follow one another

A step of a simulation succeeds in a store, with an answer and a store afterwards, or it ends the
simulation.  What is known after one step is what the next one starts from.  That the session of the
consumer is traced makes no difference, since a simulation keeps no journal.

This file defines:

* `Simulation.Succeeds`, `Simulation.Fails` and `Simulation.Settles`, with one rule for each kind of
  step;
* `Simulation.onSession_traced`.
-/

namespace FencedPool

variable {α β ε σ : Type}

namespace Simulation

/-- Whether a step succeeds in a store, where its answer and the store afterwards are such. -/
def Succeeds (step : Step α) (s : Store) (P : α → Store → Prop) : Prop :=
  ∃ a s', step.run s = .ok (a, s') ∧ P a s'

/-- Whether a step ends the simulation. -/
def Fails (step : Step α) (s : Store) : Prop := ∃ e, step.run s = .error e

variable {step : Step α} {next : α → Step β} {s s' : Store} {a : α} {P : α → Store → Prop}
  {Q : β → Store → Prop} {session : Session Store} {wrap : ε → SimulationError}

theorem run_bind_of_ok (h : step.run s = .ok (a, s')) (next : α → Step β) :
    (step >>= next).run s = (next a).run s' := by
  rw [StateT.run_bind, h]
  rfl

theorem Succeeds.bind (h : Succeeds step s P)
    (hnext : ∀ a s', P a s' → Succeeds (next a) s' Q) : Succeeds (step >>= next) s Q := by
  rcases h with ⟨a, s', hrun, hP⟩
  rcases hnext a s' hP with ⟨b, s'', hmore, hQ⟩
  exact ⟨b, s'', (run_bind_of_ok hrun next).trans hmore, hQ⟩

theorem Fails.bind (h : Fails step s) (next : α → Step β) : Fails (step >>= next) s := by
  rcases h with ⟨e, hrun⟩
  refine ⟨e, ?_⟩
  rw [StateT.run_bind, hrun]
  rfl

theorem Succeeds.bind_fails (h : Succeeds step s P) (hnext : ∀ a s', P a s' → Fails (next a) s') :
    Fails (step >>= next) s := by
  rcases h with ⟨a, s', hrun, hP⟩
  rcases hnext a s' hP with ⟨e, hmore⟩
  exact ⟨e, (run_bind_of_ok hrun next).trans hmore⟩

/-- Whether a step succeeds under a condition, and ends the simulation otherwise. -/
def Settles (step : Step α) (s : Store) (condition : Prop) (P : α → Store → Prop) : Prop :=
  (condition → Succeeds step s P) ∧ (¬ condition → Fails step s)

theorem Succeeds.bind_settles {condition : Prop} (h : Succeeds step s P)
    (hnext : ∀ a s', P a s' → Settles (next a) s' condition Q) :
    Settles (step >>= next) s condition Q :=
  ⟨fun hcondition => h.bind fun a s' hP => (hnext a s' hP).1 hcondition,
    fun hnot => h.bind_fails fun a s' hP => (hnext a s' hP).2 hnot⟩

theorem Settles.bind {condition : Prop} (h : Settles step s condition P)
    (hnext : ∀ a s', P a s' → Succeeds (next a) s' Q) :
    Settles (step >>= next) s condition Q :=
  ⟨fun hcondition => (h.1 hcondition).bind hnext, fun hnot => (h.2 hnot).bind next⟩

theorem succeeds_orStop {answer : Except ε α} (h : answer = .ok a) :
    Succeeds (orStop wrap answer) s fun b s' => b = a ∧ s' = s := by
  subst h
  exact ⟨a, s, rfl, rfl, rfl⟩

theorem fails_orStop {answer : Except ε α} {e : ε} (h : answer = .error e) :
    Fails (orStop wrap answer) s := by
  subst h
  exact ⟨wrap e, rfl⟩

theorem succeeds_onSession (session : Session Store) (p : Procedure α) (s : Store) :
    Succeeds (onSession session p) s fun a s' =>
      a = (p.run session s).answer ∧ s' = (p.run session s).state :=
  ⟨_, _, rfl, rfl, rfl⟩

theorem succeeds_openSession (timeout : Duration) (s : Store) :
    Succeeds (openSession timeout) s fun id s' =>
      id = (s.openSession {} timeout).1 ∧ s' = (s.openSession {} timeout).2 :=
  ⟨_, _, rfl, rfl, rfl⟩

theorem succeeds_get (s : Store) : Succeeds (get : Step Store) s fun a s' => a = s ∧ s' = s :=
  ⟨_, _, rfl, rfl, rfl⟩

theorem succeeds_set (s s' : Store) : Succeeds (set s' : Step Unit) s fun _ after => after = s' :=
  ⟨_, _, rfl, rfl⟩

section Scheduler

variable {op : Store → Reply (Scheduler × Store) (Except SchedulerError α)}

theorem run_onScheduler (op : Store → Reply (Scheduler × Store) (Except SchedulerError α))
    (s : Store) :
    (onScheduler op).run s =
      (orStop .scheduler (op s).answer >>= fun a => pure ((op s).state.1, a) :
        Step (Scheduler × α)).run (op s).state.2 := rfl

theorem succeeds_onScheduler (h : (op s).answer = .ok a) :
    Succeeds (onScheduler op) s fun b s' => b = ((op s).state.1, a) ∧ s' = (op s).state.2 := by
  refine ⟨_, _, ?_, rfl, rfl⟩
  rw [run_onScheduler, h]
  rfl

theorem fails_onScheduler {e : SchedulerError} (h : (op s).answer = .error e) :
    Fails (onScheduler op) s := by
  refine ⟨.scheduler e, ?_⟩
  rw [run_onScheduler, h]
  rfl

end Scheduler

/-! ## Traced sessions -/

theorem onSession_traced (session : Session Store) (p : Procedure α) :
    onSession session.traced p = onSession session p := by
  funext s
  rcases p.run_traced session s with ⟨hanswer, hstate⟩
  change Except.ok (_, _) = Except.ok (_, _)
  rw [hanswer, hstate]

theorem releaseAll_traced (session : Session Store) (handles : List NodeHandle) :
    releaseAll session.traced handles = releaseAll session handles := by
  induction handles with
  | nil => rfl
  | cons h rest ih =>
      unfold releaseAll
      rw [onSession_traced, ih]

end Simulation

end FencedPool
