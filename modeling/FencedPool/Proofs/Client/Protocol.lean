import FencedPool.Proofs.Client.Accept
import FencedPool.Proofs.Client.AllOrNothing
import FencedPool.Proofs.Procedure.Telling

/-!
# Protocol — the exact calls, events and outcome of accepting a request

A client takes the nodes of a request in turn: it locks a node and reads it.  Taking stops at the
first lock that is refused and at the first node that cannot be read.  Then every lock that was
granted is attempted to be released, in the order of the grants.  In the end the request is deleted,
once.  The answers of the store decide where this stops and what is reported, and nothing else.

This file defines:

* `Taken`, `Halt` and `ReleaseAttempt` — a node that was taken, the failure that stops taking, and
  an attempt to release a lock, each with its calls and its events;
* `LockRun` and `AcceptRun` — the calls, the events and the outcome of locking and of accepting.

The main statement is `accept_protocol`; `Client.accept_journal` says the same of the journal of a
plain session.
-/

namespace FencedPool

/-- A node that has been locked and read. -/
structure Taken where
  path : String
  token : LockToken
  data : Bytes
  metadata : NodeMetadata
  decodes : NodeMetadata.decode path data = .ok metadata

namespace Taken

def exchanges (t : Taken) : List Exchange :=
  [⟨.acquire t.path, .ok t.token⟩, ⟨.read t.path, .ok t.data⟩]

def events (id : String) (t : Taken) : List Event :=
  [.acceptingNode t.path id, .nodeRead t.path t.metadata]

def handle (t : Taken) : NodeHandle := ⟨t.token, t.metadata⟩

end Taken

/-- The failure that stops taking nodes: a lock that is refused, or a locked node that cannot be
read. -/
inductive Halt
  | refused (path : String) (e : StoreError)
  | unread (path : String) (token : LockToken) (answer : Except StoreError Bytes) (e : PoolError)
      (fails : Client.metadataOf path answer = .error e)

namespace Halt

def path : Halt → String
  | .refused path _ | .unread path _ _ _ _ => path

def exchanges : Halt → List Exchange
  | .refused path e => [⟨.acquire path, .error e⟩]
  | .unread path token answer _ _ => [⟨.acquire path, .ok token⟩, ⟨.read path, answer⟩]

/-- The lock of the node that could not be read. -/
def pending : Halt → List LockToken
  | .refused _ _ => []
  | .unread _ token _ _ _ => [token]

def error : Halt → PoolError
  | .refused _ e => .ofStore e
  | .unread _ _ _ e _ => e

def events (id : String) : Halt → List Event
  | .refused path e => [.acceptingNode path id, .nodeNotLocked path e]
  | .unread path _ _ e _ => [.acceptingNode path id, .nodeNotRead path e]

end Halt

/-- The event by which a failure is told that is also reported. -/
def CleanupError.event : CleanupError → Event
  | .release path cause => .lockNotReleased path cause
  | .delete path cause => .entryNotDeleted path cause

/-- An attempt to release a lock. -/
structure ReleaseAttempt where
  token : LockToken
  answer : Except StoreError Unit

namespace ReleaseAttempt

def exchange (a : ReleaseAttempt) : Exchange := ⟨.release a.token, a.answer⟩

def failure? (a : ReleaseAttempt) : Option CleanupError :=
  match a.answer with
  | .ok () => none
  | .error e => some (.release a.token.path e)

end ReleaseAttempt

/-- How locking nodes after those that are held can run: all of them are taken, or taking stops, and
every lock that was granted is attempted to be released once. -/
inductive LockRun (c : Client) (id : String) (held : List NodeHandle) (entries : List String) :
    List Exchange → List Event → AcceptOutcome → Prop
  | locked (taken : List Taken) (paths : taken.map (·.path) = entries.map c.resolve) :
      LockRun c id held entries (taken.flatMap Taken.exchanges)
        (taken.flatMap (Taken.events id)) { result := .ok (held ++ taken.map Taken.handle) }
  | halted (taken : List Taken) (halt : Halt) (attempts : List ReleaseAttempt)
      (paths : taken.map (·.path) ++ [halt.path] <+: entries.map c.resolve)
      (released : attempts.map (·.token) =
        held.map (·.lock) ++ taken.map (·.token) ++ halt.pending) :
      LockRun c id held entries
        (taken.flatMap Taken.exchanges ++ halt.exchanges ++
          attempts.map ReleaseAttempt.exchange)
        (taken.flatMap (Taken.events id) ++ halt.events id ++
          (attempts.filterMap ReleaseAttempt.failure?).map CleanupError.event)
        { result := .error halt.error
          cleanup := ⟨attempts.filterMap ReleaseAttempt.failure?⟩ }

def Event.deletion (path : String) : Except StoreError Unit → Event
  | .ok () => .entryDeleted path
  | .error (.noNode _) => .entryAbsent path
  | .error e => .entryNotDeleted path e

def Event.accepting (id : String) : Except PoolError (List NodeHandle) → Event
  | .ok handles => .nodesAccepted id handles.length
  | .error e => .acceptFailed id e

/-- How accepting a request with nodes can run: its nodes are locked or the locks released, and then
the request is deleted, which changes nothing but the report. -/
inductive AcceptRun (c : Client) (r : NodeRequest) (path : String) :
    List Exchange → List Event → AcceptOutcome → Prop
  | intro {dialogue : List Exchange} {events : List Event} {outcome : AcceptOutcome}
      (locking : LockRun c (r.id.getD "") [] r.allocatedNodes dialogue events outcome)
      (deletion : Except StoreError Unit) :
      AcceptRun c r path (dialogue ++ [⟨.delete path, deletion⟩])
        (events ++ [.deletion path deletion, .accepting (r.id.getD "") outcome.result])
        { result := outcome.result
          cleanup := ⟨outcome.cleanup.failures ++ Client.deletionFailures path deletion⟩ }

namespace Client

open Procedure

variable {c : Client} {id : String} {dialogue : List Exchange} {events : List Event}

/-! ## Rolling back -/

/-- Every lock is attempted to be released, in order, and every failure is told and reported. -/
theorem rollBack_tells {tokens : List LockToken} {report : CleanupReport}
    (h : (rollBack tokens).Tells dialogue events report) :
    ∃ attempts : List ReleaseAttempt, attempts.map (·.token) = tokens ∧
      dialogue = attempts.map ReleaseAttempt.exchange ∧
      events = (attempts.filterMap ReleaseAttempt.failure?).map CleanupError.event ∧
      report = ⟨attempts.filterMap ReleaseAttempt.failure?⟩ := by
  induction tokens generalizing dialogue events report with
  | nil =>
      rcases h with ⟨rfl, rfl, rfl⟩
      exact ⟨[], rfl, rfl, rfl, rfl⟩
  | cons token rest ih =>
      rw [rollBack, tells_ask_bind] at h
      rcases h with ⟨answer, tail, rfl, h⟩
      cases answer with
      | ok _ =>
          rcases ih h with ⟨attempts, rfl, rfl, rfl, rfl⟩
          exact ⟨⟨token, .ok ()⟩ :: attempts, rfl, rfl, rfl, rfl⟩
      | error e =>
          rcases tells_note_bind.1 h with ⟨later, rfl, hrest⟩
          rcases tells_bind hrest with
            ⟨first, last, early, late, inner, rfl, rfl, hinner, rfl, rfl, rfl⟩
          rcases ih hinner with ⟨attempts, rfl, rfl, rfl, rfl⟩
          refine ⟨⟨token, .error e⟩ :: attempts, rfl, ?_, ?_, rfl⟩
          · rw [List.append_nil]
            rfl
          · rw [List.append_nil]
            rfl

/-! ## Locking -/

theorem metadataAt_tells {path : String} {result : Except PoolError NodeMetadata}
    (h : (metadataAt path).Tells dialogue events result) :
    ∃ answer, dialogue = [⟨.read path, answer⟩] ∧ events = [] ∧
      metadataOf path answer = result := by
  rw [metadataAt, tells_ask_bind] at h
  rcases h with ⟨answer, tail, rfl, h⟩
  cases answer with
  | error e =>
      rcases h with ⟨rfl, rfl, rfl⟩
      exact ⟨_, rfl, rfl, rfl⟩
  | ok data =>
      rcases h with ⟨rfl, rfl, rfl⟩
      exact ⟨_, rfl, rfl, rfl⟩

theorem exists_decodes_of_metadataOf {path : String} {answer : Except StoreError Bytes}
    {metadata : NodeMetadata} (h : metadataOf path answer = .ok metadata) :
    ∃ data, answer = .ok data ∧ NodeMetadata.decode path data = .ok metadata := by
  cases answer with
  | error e => cases h
  | ok data =>
      refine ⟨data, rfl, ?_⟩
      cases hdecode : NodeMetadata.decode path data with
      | error e =>
          simp only [metadataOf, hdecode, Except.mapError] at h
          cases h
      | ok m =>
          simp only [metadataOf, hdecode, Except.mapError] at h
          cases h
          rfl

/-- Where taking stops before the first node is taken. -/
theorem LockRun.of_halt {held : List NodeHandle} {entry : String} {rest : List String}
    (halt : Halt) (hpath : halt.path = c.resolve entry) {tokens : List LockToken}
    (htokens : tokens = held.map (·.lock) ++ halt.pending) {outcome : AcceptOutcome}
    (h : (do
      let report ← rollBack tokens
      return { result := .error halt.error, cleanup := report } : Procedure AcceptOutcome).Tells
        dialogue events outcome) :
    LockRun c id held (entry :: rest) (halt.exchanges ++ dialogue) (halt.events id ++ events)
      outcome := by
  rcases tells_bind h with ⟨first, last, early, late, report, rfl, rfl, hroll, rfl, rfl, rfl⟩
  rcases rollBack_tells hroll with ⟨attempts, hreleased, rfl, rfl, rfl⟩
  rw [List.append_nil, List.append_nil]
  refine .halted [] halt attempts ?_ ?_
  · rw [List.map_nil, List.nil_append, hpath]
    exact ⟨rest.map c.resolve, rfl⟩
  · rw [hreleased, htokens, List.map_nil, List.append_nil]

/-- A node that is taken first is held while the others are locked. -/
theorem LockRun.cons {held : List NodeHandle} {entry : String} {rest : List String}
    (taken : Taken) (hpath : taken.path = c.resolve entry) {outcome : AcceptOutcome}
    (h : LockRun c id (held ++ [taken.handle]) rest dialogue events outcome) :
    LockRun c id held (entry :: rest) (taken.exchanges ++ dialogue) (taken.events id ++ events)
      outcome := by
  cases h with
  | locked more paths =>
      have hpaths : (taken :: more).map (·.path) = (entry :: rest).map c.resolve := by
        rw [List.map_cons, List.map_cons, hpath, paths]
      have hrun : LockRun c id held (entry :: rest) _ _ _ := .locked (taken :: more) hpaths
      simpa using hrun
  | halted more halt attempts paths released =>
      have hpaths : (taken :: more).map (·.path) ++ [halt.path] <+:
          (entry :: rest).map c.resolve := by
        rw [List.map_cons, List.map_cons, hpath, List.cons_append]
        exact List.cons_prefix_cons.2 ⟨rfl, paths⟩
      have hreleased : attempts.map (·.token) =
          held.map (·.lock) ++ (taken :: more).map (·.token) ++ halt.pending := by
        rw [released]
        simp [Taken.handle]
      have hrun : LockRun c id held (entry :: rest) _ _ _ :=
        .halted (taken :: more) halt attempts hpaths hreleased
      simpa using hrun

theorem lockAll_tells {held : List NodeHandle} {entries : List String} {outcome : AcceptOutcome}
    (h : (c.lockAll id held entries).Tells dialogue events outcome) :
    LockRun c id held entries dialogue events outcome := by
  induction entries generalizing held dialogue events outcome with
  | nil =>
      rcases h with ⟨rfl, rfl, rfl⟩
      have hrun : LockRun c id held [] [] [] { result := .ok (held ++ []) } := .locked [] rfl
      rwa [List.append_nil] at hrun
  | cons entry rest ih =>
      simp only [lockAll] at h
      rcases tells_note_bind.1 h with ⟨more, rfl, hask⟩
      rcases tells_ask_bind.1 hask with ⟨answer, tail, rfl, hnext⟩
      cases answer with
      | error e =>
          rcases tells_note_bind.1 hnext with ⟨later, rfl, hroll⟩
          exact LockRun.of_halt (.refused (c.resolve entry) e) rfl (List.append_nil _).symm hroll
      | ok token =>
          rcases tells_bind hnext with ⟨first, last, early, late, result, rfl, rfl, hread, hmore⟩
          rcases metadataAt_tells hread with ⟨answer, rfl, rfl, hresult⟩
          cases result with
          | error e =>
              rcases tells_note_bind.1 hmore with ⟨later, rfl, hroll⟩
              exact LockRun.of_halt (.unread (c.resolve entry) token answer e hresult) rfl rfl hroll
          | ok metadata =>
              rcases tells_note_bind.1 hmore with ⟨later, rfl, hrest⟩
              rcases exists_decodes_of_metadataOf hresult with ⟨data, rfl, hdecodes⟩
              exact LockRun.cons ⟨c.resolve entry, token, data, metadata, hdecodes⟩ rfl (ih hrest)

/-! ## Accepting -/

theorem deleteNode_tells {path : String} {report : CleanupReport}
    (h : (deleteNode path).Tells dialogue events report) :
    ∃ answer, dialogue = [⟨.delete path, answer⟩] ∧ events = [.deletion path answer] ∧
      report = ⟨deletionFailures path answer⟩ := by
  rw [deleteNode, tells_ask_bind] at h
  rcases h with ⟨answer, tail, rfl, h⟩
  refine ⟨answer, ?_⟩
  -- every reason but absence is told as a failure
  rcases answer with e | _
  · cases e <;>
      · rcases h with ⟨later, rfl, rfl, rfl, rfl⟩
        exact ⟨rfl, rfl, rfl⟩
  · rcases h with ⟨later, rfl, rfl, rfl, rfl⟩
    exact ⟨rfl, rfl, rfl⟩

/-- Whatever the calls are answered, accepting a placed request with nodes runs so. -/
theorem accept_tells {r : NodeRequest} {path : String} (hplaced : r.path = some path)
    (hnodes : r.allocatedNodes ≠ []) {outcome : AcceptOutcome}
    (h : (c.accept r).Tells dialogue events outcome) :
    AcceptRun c r path dialogue events outcome := by
  rw [accept, hplaced] at h
  dsimp only at h
  rw [if_neg hnodes] at h
  rcases tells_bind h with ⟨first, tail, early, later, locking, rfl, rfl, hlock, h⟩
  rcases tells_bind h with ⟨last, rest, middle, late, deletion, rfl, rfl, hdelete, h⟩
  rcases deleteNode_tells hdelete with ⟨answer, rfl, rfl, rfl⟩
  have hrun : AcceptRun c r path _ _ _ := .intro (lockAll_tells hlock) answer
  cases hresult : locking.result with
  | ok handles =>
      simp only [hresult] at h hrun
      rcases h with ⟨closing, rfl, rfl, rfl, rfl⟩
      simpa [CleanupReport.merge, hresult, Event.accepting] using hrun
  | error e =>
      simp only [hresult] at h hrun
      rcases h with ⟨closing, rfl, rfl, rfl, rfl⟩
      simpa [CleanupReport.merge, hresult, Event.accepting] using hrun

end Client

/-! ## Events of failures -/

/-- Whether an event tells a failure of tidying up, by its level and its message. -/
def Event.tellsFailure (e : Event) : Bool :=
  e.level == .warn &&
    (e.message == "failed to release lock on node" || e.message == "failed to delete node")

theorem CleanupError.event_tellsFailure (failure : CleanupError) :
    failure.event.tellsFailure = true := by
  cases failure <;> rfl

theorem filter_events (failures : List CleanupError) :
    (failures.map CleanupError.event).filter Event.tellsFailure =
      failures.map CleanupError.event := by
  refine List.filter_eq_self.2 fun event hevent => ?_
  rcases List.mem_map.1 hevent with ⟨failure, -, rfl⟩
  exact failure.event_tellsFailure

theorem filter_takenEvents (id : String) (taken : List Taken) :
    (taken.flatMap (Taken.events id)).filter Event.tellsFailure = [] := by
  refine List.filter_eq_nil_iff.2 fun event hevent => ?_
  rcases List.mem_flatMap.1 hevent with ⟨t, -, hevent⟩
  rcases List.mem_cons.1 hevent with rfl | hevent
  · exact Bool.false_ne_true
  · rw [List.mem_singleton.1 hevent]
    exact Bool.false_ne_true

theorem filter_haltEvents (id : String) (halt : Halt) :
    (halt.events id).filter Event.tellsFailure = [] := by
  cases halt <;> rfl

/-- While nodes are locked, the failures that are told are those that are reported. -/
theorem LockRun.filter_eq {c : Client} {id : String} {held : List NodeHandle}
    {entries : List String} {dialogue : List Exchange} {events : List Event}
    {outcome : AcceptOutcome} (h : LockRun c id held entries dialogue events outcome) :
    events.filter Event.tellsFailure = outcome.cleanup.failures.map CleanupError.event := by
  cases h with
  | locked taken paths => exact filter_takenEvents id taken
  | halted taken halt attempts paths released =>
      rw [List.filter_append, List.filter_append, filter_takenEvents, filter_haltEvents,
        filter_events, List.nil_append, List.nil_append]

theorem filter_deletion (path : String) (answer : Except StoreError Unit) :
    [Event.deletion path answer].filter Event.tellsFailure =
      (Client.deletionFailures path answer).map CleanupError.event := by
  rcases answer with e | _
  · cases e <;> rfl
  · rfl

/-- Each failure that is reported is told in one event with its path and its cause, and no other
event tells a failure of tidying up. -/
theorem AcceptRun.filter_eq {c : Client} {r : NodeRequest} {path : String}
    {dialogue : List Exchange} {events : List Event} {outcome : AcceptOutcome}
    (h : AcceptRun c r path dialogue events outcome) :
    events.filter Event.tellsFailure = outcome.cleanup.failures.map CleanupError.event := by
  cases h with
  | intro locking deletion =>
      rename_i dialogue events outcome
      have hclosing : [Event.accepting (r.id.getD "") outcome.result].filter Event.tellsFailure =
          [] := by
        cases outcome.result <;> rfl
      rw [List.filter_append, locking.filter_eq, List.map_append, ← filter_deletion,
        ← List.singleton_append, List.filter_append, hclosing, List.append_nil]

/-- On a plain session the journal of accepting a placed request with nodes consists of the events
of the protocol, so each failure that is reported stands in it once, and no other. -/
theorem Client.accept_journal (id : SessionId) (s : Store) (c : Client) (r : NodeRequest)
    {path : String} (hplaced : r.path = some path) (hnodes : r.allocatedNodes ≠ []) :
    let reply := (c.accept r).run (.plain id) s
    ∃ events, reply.journal = .ofEvents events ∧
      AcceptRun c r path ((c.accept r).exchanges (.plain id) s) events reply.answer ∧
      events.filter Event.tellsFailure =
        reply.answer.cleanup.failures.map CleanupError.event := by
  intro reply
  have hrun := accept_tells hplaced hnodes (Procedure.tells_run (.plain id) (c.accept r) s)
  exact ⟨_, Procedure.journal_plain id (c.accept r) s, hrun, hrun.filter_eq⟩

/-- The protocol of accepting a placed request with nodes, on any session: its calls, its events and
its outcome, and how the failures that it tells and reports agree. -/
theorem accept_protocol {σ : Type} (session : Session σ) (s : σ) (c : Client) (r : NodeRequest)
    (path : String) (hplaced : r.path = some path) (hnodes : r.allocatedNodes ≠ []) :
    let outcome := ((c.accept r).run session s).answer
    let events := (c.accept r).told session s
    AcceptRun c r path ((c.accept r).exchanges session s) events outcome ∧
      events.filter Event.tellsFailure = outcome.cleanup.failures.map CleanupError.event := by
  intro outcome events
  have hrun : AcceptRun c r path ((c.accept r).exchanges session s) events outcome :=
    Client.accept_tells hplaced hnodes (Procedure.tells_run session (c.accept r) s)
  exact ⟨hrun, hrun.filter_eq⟩

/-- The second lock is refused, and the release of the first lock fails: it is told and reported,
and the request is still deleted. -/
theorem accept_protocol_contended :
    let s := ((Service.fresh {} .halfMinute).after contended).store
    let session := Session.recorded (.plain ⟨1⟩)
    let accepting := Client.byDefault.accept .ofTwoNodes
    let dialogue := accepting.exchanges session (.keepingFirst, s)
    let events := accepting.told session (.keepingFirst, s)
    AcceptRun .byDefault .ofTwoNodes "/nodepool/requests/100-0000000000" dialogue events
        (accepting.run session (.keepingFirst, s)).answer ∧
      dialogue.map (·.call) =
        [.acquire "/nodepool/nodes/1", .read "/nodepool/nodes/1", .acquire "/nodepool/nodes/2",
          .release ⟨"/nodepool/nodes/1", ⟨1⟩, 2⟩, .delete "/nodepool/requests/100-0000000000"] ∧
      events.filter Event.tellsFailure =
        [.lockNotReleased "/nodepool/nodes/1" (.unavailable "connection loss")] :=
  ⟨(accept_protocol (.recorded (.plain ⟨1⟩)) (.keepingFirst, _) .byDefault .ofTwoNodes
      "/nodepool/requests/100-0000000000" rfl (by decide)).1,
    by decide, by decide⟩

end FencedPool
