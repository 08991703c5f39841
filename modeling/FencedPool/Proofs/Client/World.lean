import FencedPool.Proofs.Client.Accept
import Mathlib.Data.List.Perm.Basic
import Mathlib.Data.List.Perm.Subperm

/-!
# World — clients that work on one service side by side

Any number of clients run their programs on sessions of one service, while the scheduler and the
operators act on it as well.  A program may run from its first call to its last without
interruption, or call by call between everything else.  It is followed which handles have been
returned to the callers and which tokens have been released.

This file defines:

* `ClientOperation`, `Task` and `World`;
* `World.Step`, `World.step` and `World.after` — runs, in any order of steps;
* `World.outstanding` — the handles that are returned, not released, and of an open session;
* `World.releasedSince` — the tokens that are released from some point of a run on;
* `World.Accounted` — the invariant: every token in the clients' hands is from a grant of its own.

The main statement is `World.after_accounted`.
-/

namespace FencedPool

open Exchange Procedure

/-- What a client does on a session: it accepts a request, or it runs any other program, such as
placing or reading a request, giving a node back or locking an entry. -/
inductive ClientOperation
  | accept (c : Client) (r : NodeRequest)
  | other (p : Procedure Unit)

/-- The program of an operation, with the handles that it returns. -/
def ClientOperation.procedure : ClientOperation → Procedure (List NodeHandle)
  | .accept c r => do return (← c.accept r).nodes
  | .other p => do
      p
      return []

/-- A program in the middle of its run, with the tokens that it has been granted so far. -/
structure Task where
  session : SessionId
  rest : Procedure (List NodeHandle)
  taken : List LockToken := []

/-- A service with the programs that run on it, the handles that they have returned, and the tokens
that have been released. -/
structure World where
  service : Service
  tasks : List Task := []
  returned : List NodeHandle := []
  released : List LockToken := []

namespace World

inductive Step
  /-- Anything is done to the service. -/
  | act (a : ServiceAction)
  /-- An operation runs without interruption. -/
  | run (id : SessionId) (op : ClientOperation)
  /-- An operation begins, to go on between other steps. -/
  | begin (id : SessionId) (op : ClientOperation)
  /-- The task at a position makes its next call, or tells an event, or returns.  The call may be
  refused before it reaches the service. -/
  | advance (position : Nat) (refusal : Option StoreError)

def fresh (clock : Clock) (timeout : Duration) : World := { service := .fresh clock timeout }

def act (w : World) (a : ServiceAction) : World :=
  { w with
    service := w.service.act a
    released := w.released ++ (w.service.released? a).toList }

/-- A world after an uninterrupted operation. -/
def run (w : World) (id : SessionId) (op : ClientOperation) : World :=
  let reply := op.procedure.run (.plain id) w.service.store
  let dialogue := op.procedure.exchanges (.plain id) w.service.store
  { w with
    service := { w.service with store := reply.state }
    returned := w.returned ++ reply.answer
    released := w.released ++ dialogue.filterMap released? }

/-- A world in which a task moves on.  It comes to the front of the tasks. -/
def move (w : World) (task : Task) (others : List Task) (refusal : Option StoreError) : World :=
  match task.rest with
  | .done handles => { w with tasks := others, returned := w.returned ++ handles }
  | .tell _ next => { w with tasks := { task with rest := next } :: others }
  | .call c next =>
      match refusal with
      | some e => { w with tasks := { task with rest := next (.error e) } :: others }
      | none =>
          let answer := (w.service.perform task.session c).1
          let moved : Task :=
            { task with
              rest := next answer
              taken := task.taken ++ (granted? ⟨c, answer⟩).toList }
          { w.act (.call task.session c) with tasks := moved :: others }

def step (w : World) : Step → World
  | .act a => w.act a
  | .run id op => w.run id op
  | .begin id op => { w with tasks := { session := id, rest := op.procedure } :: w.tasks }
  | .advance position refusal =>
      match w.tasks[position]? with
      | some task => w.move task (w.tasks.eraseIdx position) refusal
      | none => w

def after (w : World) (steps : List Step) : World := steps.foldl step w

/-- Whether a handle that has been returned is still good: its token has not been released and the
session of its holder has not ended. -/
def isGood (w : World) (h : NodeHandle) : Bool :=
  !w.released.contains h.lock && w.service.store.isSessionOpen h.lock.holder

theorem isGood_eq_true_iff {w : World} {handle : NodeHandle} :
    w.isGood handle = true ↔ handle.lock ∉ w.released ∧
      w.service.store.isSessionOpen handle.lock.holder = true := by
  simp [isGood]

/-- The tokens that have been released since an earlier point of the run. -/
def releasedSince (w earlier : World) : List LockToken := w.released.drop earlier.released.length

/-- The handles that are outstanding. -/
def outstanding (w : World) : List NodeHandle := w.returned.filter w.isGood

/-- The tokens in the hands of clients: of the handles that were returned, and of running tasks. -/
def issued (w : World) : List LockToken :=
  w.returned.map (·.lock) ++ w.tasks.flatMap (·.taken)

end World

/-! ## What programs return -/

/-- The handles that an operation returns are for tokens that it has been granted. -/
theorem ClientOperation.procedure_gives {op : ClientOperation} {dialogue : List Exchange}
    {handles : List NodeHandle} (h : op.procedure.Gives dialogue handles) :
    (handles.map (·.lock)).Subperm (dialogue.filterMap granted?) := by
  cases op with
  | other p =>
      rcases gives_bind.1 h with ⟨first, rest, _, rfl, -, rfl, rfl⟩
      exact List.nil_subperm
  | accept c r =>
      rcases gives_bind.1 h with ⟨first, rest, outcome, rfl, haccept, rfl, rfl⟩
      simp only [List.append_nil]
      cases hplaced : r.path with
      | none =>
          -- a request that was never placed is left alone
          simp only [Client.accept, hplaced] at haccept
          rcases haccept with ⟨rfl, rfl⟩
          exact List.nil_subperm
      | some path =>
          rcases Client.accept_gives hplaced haccept with
            ⟨first, answer, locking, rfl, -, hlocking, hresult, -⟩
          unfold AcceptOutcome.nodes
          simp only [hresult, List.filterMap_append]
          cases hlocking with
          | locked handles tokens paths attempted =>
              refine List.Sublist.subperm ?_
              simp only [tokens]
              exact List.sublist_append_left _ _
          | rolledBack e report attempted failures => exact List.nil_subperm

/-- Whether a task can only return handles for tokens that it has been granted. -/
def Task.Sound (task : Task) : Prop :=
  ∀ dialogue handles, task.rest.Gives dialogue handles →
    (handles.map (·.lock)).Subperm (task.taken ++ dialogue.filterMap granted?)

namespace World

variable {w : World} {start : Service} {history : List ServiceAction}

/-- The invariant of a world that began with a given service: the service has gone through a run,
the tokens in the clients' hands come from grants of their own, and tasks take no others. -/
structure Accounted (start : Service) (history : List ServiceAction) (w : World) : Prop where
  service : w.service = start.after history
  released : w.released = start.releasesAlong history
  issued : w.issued.Subperm (start.grantsAlong history)
  tasks : ∀ task ∈ w.tasks, task.Sound

theorem fresh_accounted (clock : Clock) (timeout : Duration) :
    Accounted (.fresh clock timeout) [] (fresh clock timeout) where
  service := rfl
  released := rfl
  issued := List.nil_subperm
  tasks := nofun

theorem Accounted.act (h : Accounted start history w) (a : ServiceAction) :
    Accounted start (history ++ [a]) (w.act a) where
  service := by
    simp only [Service.after_append, ← h.service]
    rfl
  released := by
    simp only [Service.releasesAlong_append, ← h.service, ← h.released]
    exact congrArg (w.released ++ ·) (List.append_nil _).symm
  issued := by
    simp only [Service.grantsAlong_append]
    exact h.issued.trans (List.sublist_append_left _ _).subperm
  tasks := h.tasks

theorem Accounted.run (h : Accounted start history w) (id : SessionId) (op : ClientOperation) :
    ∃ actions, Accounted start (history ++ actions) (w.run id op) := by
  rcases (dialogue_plain id op.procedure w.service.store).exists_run w.service rfl with
    ⟨actions, hafter, hgrants, hreleases⟩
  simp only [h.service] at hafter hgrants hreleases
  have hreturned := ClientOperation.procedure_gives
    (gives_run (.plain id) op.procedure w.service.store)
  refine ⟨actions, ?_, ?_, ?_, h.tasks⟩
  · rw [Service.after_append, hafter, ← h.service]
    rfl
  · rw [Service.releasesAlong_append, hreleases, ← h.released, ← h.service]
    rfl
  · rw [Service.grantsAlong_append, hgrants, ← h.service]
    -- the returned handles come on top of what has been issued
    have hperm : (w.run id op).issued.Perm
        (w.issued ++ (op.procedure.run (.plain id) w.service.store).answer.map (·.lock)) := by
      unfold World.issued World.run
      simp only [List.map_append, List.append_assoc, List.append_assoc]
      exact List.Perm.append_left _ List.perm_append_comm
    exact hperm.subperm.trans (h.issued.append hreturned)

/-- The tokens in the clients' hands, when one task is told apart from the others. -/
theorem issued_perm {task : Task} {others : List Task} (htasks : w.tasks.Perm (task :: others)) :
    w.issued.Perm (w.returned.map (·.lock) ++ (task.taken ++ others.flatMap (·.taken))) :=
  List.Perm.append_left _ (htasks.flatMap_right _)

theorem Accounted.move (h : Accounted start history w) {task : Task} {others : List Task}
    (htasks : w.tasks.Perm (task :: others)) (refusal : Option StoreError) :
    ∃ actions, Accounted start (history ++ actions) (w.move task others refusal) := by
  have hsound : task.Sound := h.tasks task (htasks.mem_iff.2 List.mem_cons_self)
  have hothers : ∀ other ∈ others, other.Sound := fun other hother =>
    h.tasks other (htasks.mem_iff.2 (List.mem_cons_of_mem _ hother))
  have hissued := (issued_perm htasks).symm.subperm.trans h.issued
  rcases task with ⟨session, rest, taken⟩
  cases rest with
  | done handles =>
      refine ⟨[], ?_⟩
      simp only [List.append_nil]
      refine ⟨h.service, h.released, ?_, hothers⟩
      -- the tokens of a task that returns pass to its handles; others of them are dropped
      have hreturned := hsound [] handles ⟨rfl, rfl⟩
      simp only [List.filterMap_nil, List.append_nil] at hreturned
      change ((w.returned ++ handles).map (·.lock) ++ others.flatMap (·.taken)).Subperm _
      simp only [List.map_append, List.append_assoc]
      have hfewer := (List.subperm_append_right (others.flatMap (·.taken))).2 hreturned
      exact ((List.subperm_append_left _).2 hfewer).trans hissued
  | tell event next =>
      refine ⟨[], ?_⟩
      simp only [List.append_nil]
      refine ⟨h.service, h.released, hissued, ?_⟩
      exact List.forall_mem_cons.2 ⟨fun dialogue handles hgives =>
        hsound dialogue handles hgives, hothers⟩
  | call c next =>
      cases refusal with
      | some e =>
          refine ⟨[], ?_⟩
          simp only [List.append_nil]
          refine ⟨h.service, h.released, hissued, List.forall_mem_cons.2 ⟨?_, hothers⟩⟩
          intro dialogue handles hgives
          -- a refusal grants nothing
          have hreturned := hsound (⟨c, .error e⟩ :: dialogue) handles ⟨_, _, rfl, hgives⟩
          simp only [List.filterMap_cons_none (granted?_error c e)] at hreturned
          exact hreturned
      | none =>
          have hact := h.act (.call session c)
          refine ⟨[.call session c], hact.service, hact.released, ?_,
            List.forall_mem_cons.2 ⟨?_, hothers⟩⟩
          · simp only [Service.grantsAlong_append, ← h.service]
            -- the call grants at most one token, which the task takes
            have hgranted : w.service.grantsAlong [.call session c] =
                (granted? ⟨c, (w.service.perform session c).1⟩).toList := List.append_nil _
            have hperm : (w.move ⟨session, .call c next, taken⟩ others none).issued.Perm
                (w.issued ++ w.service.grantsAlong [.call session c]) := by
              simp only [hgranted]
              refine List.Perm.trans ?_ (List.Perm.append_right _ (issued_perm htasks)).symm
              change (w.returned.map (·.lock) ++ (taken ++ _ ++ others.flatMap (·.taken))).Perm _
              simp only [List.append_assoc, List.append_assoc, List.append_assoc]
              exact List.Perm.append_left _ (List.Perm.append_left _ List.perm_append_comm)
            exact hperm.subperm.trans (h.issued.append (List.Perm.refl _).subperm)
          · intro dialogue handles hgives
            have hreturned := hsound (⟨c, (w.service.perform session c).1⟩ :: dialogue) handles
              ⟨_, _, rfl, hgives⟩
            rw [List.filterMap_eq_flatMap_toList, List.flatMap_cons, ← List.append_assoc,
              ← List.filterMap_eq_flatMap_toList] at hreturned
            exact hreturned

theorem Accounted.begin (h : Accounted start history w) (id : SessionId) (op : ClientOperation) :
    Accounted start history (w.step (.begin id op)) where
  service := h.service
  released := h.released
  issued := h.issued
  tasks := List.forall_mem_cons.2
    ⟨fun _ _ hgives => ClientOperation.procedure_gives hgives, h.tasks⟩

theorem Accounted.step (h : Accounted start history w) (s : Step) :
    ∃ actions, Accounted start (history ++ actions) (w.step s) := by
  cases s with
  | act a => exact ⟨[a], h.act a⟩
  | run id op => exact h.run id op
  | begin id op =>
      refine ⟨[], ?_⟩
      simp only [List.append_nil]
      exact h.begin id op
  | advance position refusal =>
      change ∃ actions, Accounted start (history ++ actions) (match w.tasks[position]? with
        | some task => w.move task (w.tasks.eraseIdx position) refusal
        | none => w)
      split
      · next task htask =>
          rcases List.getElem?_eq_some_iff.1 htask with ⟨hlt, rfl⟩
          exact h.move (List.getElem_cons_eraseIdx_perm hlt).symm refusal
      · exact ⟨[], by rwa [List.append_nil]⟩

/-- The accounts are kept from any point of a run on, in whatever order the steps come. -/
theorem Accounted.after (h : Accounted start history w) (steps : List Step) :
    ∃ actions, Accounted start (history ++ actions) (w.after steps) := by
  induction steps generalizing w history with
  | nil => exact ⟨[], by rwa [List.append_nil]⟩
  | cons s rest ih =>
      rcases h.step s with ⟨first, hstep⟩
      rcases ih hstep with ⟨later, hrest⟩
      rw [List.append_assoc] at hrest
      exact ⟨first ++ later, hrest⟩

theorem after_accounted (clock : Clock) (timeout : Duration) (steps : List Step) :
    ∃ history, Accounted (.fresh clock timeout) history ((fresh clock timeout).after steps) :=
  (fresh_accounted clock timeout).after steps

/-- What is released later is recorded behind what has been released. -/
theorem Accounted.released_after (h : Accounted start history w) (steps : List Step) :
    (w.after steps).released = w.released ++ (w.after steps).releasedSince w := by
  rcases h.after steps with ⟨actions, hafter⟩
  have hreleased := hafter.released
  rw [Service.releasesAlong_append, ← h.released] at hreleased
  unfold releasedSince
  rw [hreleased, List.drop_left]

end World

end FencedPool
