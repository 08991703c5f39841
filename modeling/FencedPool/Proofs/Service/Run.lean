import FencedPool.Scheduler
import FencedPool.Service
import FencedPool.Session.Plain

/-!
# Run — everything that can be done to a service, in any order

A service is driven by its sessions, by the scheduler and by whoever operates the store, and its
clock moves on between any two of these.  A `ServiceAction` is one such thing and a run is a list of
them, so a statement about all runs covers all interleavings.  A scheduler that acts may have any
state.

This file defines:

* `ServiceAction` and `Service.act`;
* `Service.after` — a service after a run, and `Store.Reachable` — the stores that runs lead to;
* `Store.Reachable.induct`, by which an invariant of every action holds of every such store;
* `Scheduler.provision_preserves` and `Scheduler.runOnce_preserves`, which reduce the scheduler to
  the writes that it makes.
-/

namespace FencedPool

/-- One thing that is done to a service. -/
inductive ServiceAction
  | openSession
  | heartbeat (id : SessionId)
  | closeSession (id : SessionId)
  | expire
  | advance (d : Duration)
  | setTimeout (d : Duration)
  | call (id : SessionId) (c : Call)
  | put (path : String) (data : Bytes)
  | setData (path : String) (data : Bytes)
  | delete (path : String)
  | poll (id : WatchId)
  | dropWatch (id : WatchId)
  | provision (scheduler : Scheduler) (count : Nat) (label : String)
  | runOnce (scheduler : Scheduler) (perRequest : Nat)

namespace Service

def fresh (clock : Clock) (timeout : Duration) : Service :=
  { clock := clock, sessionTimeout := timeout }

/-- Answers a call that comes through a session. -/
def perform (s : Service) (id : SessionId) (c : Call) : Except StoreError c.Answer × Service :=
  let reply := (Session.plain id).perform c s.store
  (reply.answer, { s with store := reply.state })

/-- The service after an action. -/
def act (s : Service) : ServiceAction → Service
  | .openSession => s.openSession.state
  | .heartbeat id => (s.heartbeat id).2
  | .closeSession id => (s.closeSession id).state
  | .expire => s.expire.state
  | .advance d => { s with clock := s.clock.advance d }
  | .setTimeout d => { s with sessionTimeout := d }
  | .call id c => (s.perform id c).2
  | .put path data => { s with store := (s.store.put path data).2 }
  | .setData path data => { s with store := (s.store.setData path data).2 }
  | .delete path => { s with store := (s.store.delete path).2 }
  | .poll id => { s with store := (s.store.poll id).2 }
  | .dropWatch id => { s with store := s.store.dropWatch id }
  | .provision scheduler count label =>
      { s with store := (scheduler.provision s.store count label).state.2 }
  | .runOnce scheduler perRequest =>
      { s with store := (scheduler.runOnce s.store perRequest).state.2 }

def after (s : Service) (actions : List ServiceAction) : Service := actions.foldl act s

@[simp] theorem after_nil (s : Service) : s.after [] = s := rfl

@[simp] theorem after_cons (s : Service) (a : ServiceAction) (rest : List ServiceAction) :
    s.after (a :: rest) = (s.act a).after rest := rfl

theorem after_append (s : Service) (first rest : List ServiceAction) :
    s.after (first ++ rest) = (s.after first).after rest :=
  List.foldl_append

/-- What every action keeps, every run keeps. -/
theorem after_preserves {P : Store → Prop} (hstep : ∀ s a, P s.store → P (act s a).store)
    (s : Service) (actions : List ServiceAction) (hs : P s.store) : P (s.after actions).store := by
  induction actions generalizing s with
  | nil => exact hs
  | cons a rest ih => exact ih (s.act a) (hstep s a hs)

end Service

/-- The stores that a run leads to from an empty one. -/
def Store.Reachable (s : Store) : Prop :=
  ∃ (clock : Clock) (timeout : Duration) (actions : List ServiceAction),
    s = ((Service.fresh clock timeout).after actions).store

/-- An invariant: it holds of the empty store, and every action keeps it. -/
theorem Store.Reachable.induct {P : Store → Prop} (hempty : P {})
    (hstep : ∀ s a, P s.store → P (Service.act s a).store) {s : Store} (h : s.Reachable) : P s := by
  rcases h with ⟨clock, timeout, actions, rfl⟩
  exact Service.after_preserves hstep (Service.fresh clock timeout) actions hempty

/-! ## The scheduler only writes -/

namespace Scheduler

variable {P : Store → Prop}

theorem storeNodes_preserves (hput : ∀ s path data, P s → P (Store.put s path data).2)
    (label : String) (count : Nat) (s : Scheduler × Store) (hs : P s.2) :
    P (storeNodes label count s).state.2 := by
  induction count generalizing s with
  | zero => exact hs
  | succ count ih =>
      rcases s with ⟨s, store⟩
      have hstore :=
        hput store (Path.join s.nodeRoot (nodeId s.next)) (nodeRecord s.next label).encode hs
      unfold storeNodes
      dsimp only
      generalize store.put (Path.join s.nodeRoot (nodeId s.next)) (nodeRecord s.next label).encode
        = outcome at hstore ⊢
      rcases outcome with ⟨_ | _, store'⟩
      · exact hstore
      · exact ih _ hstore

/-- What every write keeps, provisioning keeps. -/
theorem provision_preserves (hput : ∀ s path data, P s → P (Store.put s path data).2)
    (s : Scheduler) (store : Store) (count : Nat) (label : String) (hs : P store) :
    P (s.provision store count label).state.2 := by
  have h := storeNodes_preserves hput label count (s, store) hs
  simp only [provision]
  split
  · exact h
  · exact h

theorem handle_preserves (hset : ∀ s path data, P s → P (Store.setData s path data).2)
    (perRequest : Nat) (paths : List String) (s : Scheduler × Store) (hs : P s.2) :
    P (handle perRequest paths s).state.2 := by
  induction paths generalizing s with
  | nil => exact hs
  | cons path rest ih =>
      rcases s with ⟨s, store⟩
      simp only [handle]
      split
      · exact ih _ hs
      · split
        · exact hs
        · next r _ =>
            by_cases hr : r.state ≠ .requested
            · simp only [if_pos hr]
              exact ih _ hs
            · simp only [if_neg hr]
              rcases decide perRequest (s.readyNodes r.poolLabel) r with ⟨updated, left⟩
              have hstore := hset store path updated.encode hs
              dsimp only
              generalize store.setData path updated.encode = outcome at hstore ⊢
              rcases outcome with ⟨_ | _, store'⟩
              · exact hstore
              · exact ih _ hstore

/-- What every overwriting keeps, a pass over the requests keeps. -/
theorem runOnce_preserves (hset : ∀ s path data, P s → P (Store.setData s path data).2)
    (s : Scheduler) (store : Store) (perRequest : Nat) (hs : P store) :
    P (s.runOnce store perRequest).state.2 :=
  handle_preserves hset perRequest _ (s, store) hs

end Scheduler

end FencedPool
