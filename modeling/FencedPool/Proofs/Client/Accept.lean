import FencedPool.Client
import FencedPool.Proofs.Procedure.Dialogue

/-!
# Accept — the calls by which a client locks nodes, rolls back and deletes the request

To accept a request, a client asks for the locks of its nodes in order and reads each node that it
has locked.  It goes on while this succeeds.  At the first failure it attempts to release each lock
that it was granted, once and in order.  The last call deletes the request.  All this is so whatever
the calls are answered.

This file proves:

* `Client.rollBack_gives` and `Client.lockAll_gives`, by recursion on the tokens and the entries;
* `Client.deleteNode_gives` and `Client.accept_gives`.
-/

namespace FencedPool

open Exchange

/-- The failure that is reported for a lock whose release was refused. -/
def CleanupError.ofRetained (retained : LockToken × StoreError) : CleanupError :=
  .release retained.1.path retained.2

namespace Client

open Procedure

/-! ## Rolling back -/

/-- Every lock is attempted to be released, in order, and every refusal is reported. -/
theorem rollBack_gives {tokens : List LockToken} {dialogue : List Exchange}
    {report : CleanupReport} (h : (rollBack tokens).Gives dialogue report) :
    (∀ x ∈ dialogue, x.call.KeepsEntries) ∧
      dialogue.filterMap granted? = [] ∧
      dialogue.filterMap attempted? = tokens ∧
      report.failures = (dialogue.filterMap retained?).map .ofRetained := by
  induction tokens generalizing dialogue report with
  | nil =>
      rcases h with ⟨rfl, rfl⟩
      exact ⟨nofun, rfl, rfl, rfl⟩
  | cons token rest ih =>
      rw [rollBack, gives_ask_bind] at h
      rcases h with ⟨answer, tail, rfl, h⟩
      have hrelease : (Call.release token).KeepsEntries := ⟨nofun, nofun⟩
      cases answer with
      | ok _ =>
          rcases ih h with ⟨hkeeps, hgranted, hattempted, hfailures⟩
          exact ⟨List.forall_mem_cons.2 ⟨hrelease, hkeeps⟩, hgranted,
            congrArg (token :: ·) hattempted, hfailures⟩
      | error e =>
          have h := gives_note_bind.1 h
          rcases gives_bind.1 h with ⟨first, last, inner, rfl, hinner, rfl, rfl⟩
          rcases ih hinner with ⟨hkeeps, hgranted, hattempted, hfailures⟩
          simp only [List.append_nil]
          exact ⟨List.forall_mem_cons.2 ⟨hrelease, hkeeps⟩, hgranted,
            congrArg (token :: ·) hattempted,
            congrArg (CleanupError.release token.path e :: ·) hfailures⟩

/-! ## Locking -/

/-- How locking nodes after those that are held can end: with a handle for each lock, or with every
lock attempted to be released. -/
inductive Locking (c : Client) (held : List NodeHandle) (entries : List String)
    (dialogue : List Exchange) : AcceptOutcome → Prop
  | locked (handles : List NodeHandle)
      (tokens : handles.map (·.lock) = held.map (·.lock) ++ dialogue.filterMap granted?)
      (paths : dialogue.filterMap lockedPath? = entries.map c.resolve)
      (attempted : dialogue.filterMap attempted? = []) :
      Locking c held entries dialogue { result := .ok handles }
  | rolledBack (e : PoolError) (report : CleanupReport)
      (attempted : dialogue.filterMap attempted? =
        held.map (·.lock) ++ dialogue.filterMap granted?)
      (failures : report.failures = (dialogue.filterMap retained?).map .ofRetained) :
      Locking c held entries dialogue { result := .error e, cleanup := report }

theorem Locking.of_rollBack (c : Client) (held : List NodeHandle) (entries : List String)
    (before : List Exchange) {dialogue : List Exchange} {tokens : List LockToken} {e : PoolError}
    {outcome : AcceptOutcome}
    (h : (do
      let report ← rollBack tokens
      return { result := .error e, cleanup := report } : Procedure AcceptOutcome).Gives
        dialogue outcome)
    (htokens : tokens = held.map (·.lock) ++ before.filterMap granted?)
    (hattempted : before.filterMap attempted? = [])
    (hretained : before.filterMap retained? = []) :
    (∀ x ∈ dialogue, x.call.KeepsEntries) ∧
      Locking c held entries (before ++ dialogue) outcome := by
  -- what went before attempted no release, so all releases are those of the rollback
  rcases gives_bind.1 h with ⟨first, last, report, rfl, hroll, rfl, rfl⟩
  rcases rollBack_gives hroll with ⟨hkeeps, hgranted, hall, hfailures⟩
  simp only [List.append_nil]
  refine ⟨hkeeps, .rolledBack e report ?_ ?_⟩
  · rw [List.filterMap_append, List.filterMap_append, hattempted, hgranted, hall, htokens,
      List.nil_append, List.append_nil]
  · simp only [List.filterMap_append, hretained, hfailures, List.nil_append]

theorem Locking.cons {c : Client} {held : List NodeHandle} {entry : String} {rest : List String}
    {dialogue : List Exchange} {token : LockToken} {data : Except StoreError Bytes}
    {metadata : NodeMetadata} {outcome : AcceptOutcome}
    (h : Locking c (held ++ [⟨token, metadata⟩]) rest dialogue outcome) :
    Locking c held (entry :: rest)
      (⟨.acquire (c.resolve entry), .ok token⟩ :: ⟨.read (c.resolve entry), data⟩ :: dialogue)
      outcome := by
  -- the token moves from the granted ones to the held ones
  have hgranted : held.map (·.lock) ++ token :: dialogue.filterMap granted? =
      (held ++ [(⟨token, metadata⟩ : NodeHandle)]).map (·.lock) ++ dialogue.filterMap granted? := by
    simp
  cases h with
  | locked handles tokens paths attempted =>
      exact .locked handles (tokens.trans hgranted.symm) (congrArg (c.resolve entry :: ·) paths)
        attempted
  | rolledBack e report attempted failures =>
      exact .rolledBack e report (attempted.trans hgranted.symm) failures

/-- What becomes of the answer when metadata are read. -/
def metadataOf (path : String) : Except StoreError Bytes → Except PoolError NodeMetadata
  | .error e => .error (.ofStore e)
  | .ok data => (NodeMetadata.decode path data).mapError .malformedRecord

theorem metadataAt_gives {path : String} {dialogue : List Exchange}
    {result : Except PoolError NodeMetadata} (h : (metadataAt path).Gives dialogue result) :
    ∃ answer, dialogue = [⟨.read path, answer⟩] ∧ metadataOf path answer = result := by
  rw [metadataAt, gives_ask_bind] at h
  rcases h with ⟨answer, tail, rfl, h⟩
  cases answer with
  | error e =>
      rcases h with ⟨rfl, rfl⟩
      exact ⟨_, rfl, rfl⟩
  | ok data =>
      rcases h with ⟨rfl, rfl⟩
      exact ⟨_, rfl, rfl⟩

/-- Locking asks for locks, reads and releases, and ends in one of two ways. -/
theorem lockAll_gives {c : Client} {id : String} {held : List NodeHandle} {entries : List String}
    {dialogue : List Exchange} {outcome : AcceptOutcome}
    (h : (c.lockAll id held entries).Gives dialogue outcome) :
    (∀ x ∈ dialogue, x.call.KeepsEntries) ∧ Locking c held entries dialogue outcome := by
  induction entries generalizing held dialogue outcome with
  | nil =>
      rcases h with ⟨rfl, rfl⟩
      exact ⟨nofun, .locked held (by simp) rfl rfl⟩
  | cons entry rest ih =>
      simp only [lockAll] at h
      rcases gives_ask_bind.1 (gives_note_bind.1 h) with ⟨answer, tail, rfl, hnext⟩
      have hacquire : (Call.acquire (c.resolve entry)).KeepsEntries := ⟨nofun, nofun⟩
      cases answer with
      | error e =>
          -- the node is not locked: the held ones are given back
          have hroll := Locking.of_rollBack c held (entry :: rest)
            [⟨.acquire (c.resolve entry), .error e⟩] (gives_note_bind.1 hnext)
            (List.append_nil _).symm rfl rfl
          exact ⟨List.forall_mem_cons.2 ⟨hacquire, hroll.1⟩, hroll.2⟩
      | ok token =>
          rcases gives_bind.1 hnext with ⟨first, last, result, rfl, hread, hmore⟩
          rcases metadataAt_gives hread with ⟨data, rfl, -⟩
          have hreadKeeps : (Call.read (c.resolve entry)).KeepsEntries := ⟨nofun, nofun⟩
          cases result with
          | error e =>
              -- the node is locked but cannot be read: it is given back with the others
              have hroll := Locking.of_rollBack c held (entry :: rest)
                [⟨.acquire (c.resolve entry), .ok token⟩, ⟨.read (c.resolve entry), data⟩]
                (gives_note_bind.1 hmore) rfl rfl rfl
              exact ⟨List.forall_mem_cons.2 ⟨hacquire, List.forall_mem_cons.2
                ⟨hreadKeeps, hroll.1⟩⟩, hroll.2⟩
          | ok metadata =>
              -- the node is held from here on
              rcases ih (gives_note_bind.1 hmore) with ⟨hkeeps, hlocking⟩
              exact ⟨List.forall_mem_cons.2 ⟨hacquire, List.forall_mem_cons.2
                ⟨hreadKeeps, hkeeps⟩⟩, hlocking.cons⟩

/-! ## Deleting the request -/

/-- The failures that are reported when a deletion is answered so. -/
def deletionFailures (path : String) : Except StoreError Unit → List CleanupError
  | .ok () => []
  | .error (.noNode _) => []
  | .error e => [.delete path e]

theorem deleteNode_gives {path : String} {dialogue : List Exchange} {report : CleanupReport}
    (h : (deleteNode path).Gives dialogue report) :
    ∃ answer, dialogue = [⟨.delete path, answer⟩] ∧
      report = ⟨deletionFailures path answer⟩ := by
  rw [deleteNode, gives_ask_bind] at h
  rcases h with ⟨answer, tail, rfl, h⟩
  refine ⟨answer, ?_⟩
  -- every reason but absence is reported
  rcases answer with e | _
  · cases e <;>
      · rcases h with ⟨rfl, rfl⟩
        exact ⟨rfl, rfl⟩
  · rcases h with ⟨rfl, rfl⟩
    exact ⟨rfl, rfl⟩

/-! ## Accepting -/

/-- Accepting a placed request locks its nodes, or nothing when it has none, and then deletes the
request; the report has the failures of both. -/
theorem accept_gives {c : Client} {r : NodeRequest} {path : String} {dialogue : List Exchange}
    {outcome : AcceptOutcome} (hplaced : r.path = some path)
    (h : (c.accept r).Gives dialogue outcome) :
    ∃ first answer locking,
      dialogue = first ++ [⟨.delete path, answer⟩] ∧
      (∀ x ∈ first, x.call.KeepsEntries) ∧
      Locking c [] r.allocatedNodes first locking ∧
      outcome.result = locking.result ∧
      outcome.cleanup.failures = locking.cleanup.failures ++ deletionFailures path answer := by
  rw [accept, hplaced] at h
  dsimp only at h
  split at h
  · next hempty =>
      rcases gives_bind.1 (gives_note_bind.1 h) with ⟨first, last, deletion, rfl, hdelete, rfl, rfl⟩
      rcases deleteNode_gives hdelete with ⟨answer, rfl, rfl⟩
      exact ⟨[], answer, { result := .error _ }, rfl, nofun, .rolledBack _ {} rfl rfl, rfl, rfl⟩
  · rcases gives_bind.1 h with ⟨first, tail, locking, rfl, hlock, h⟩
    rcases gives_bind.1 h with ⟨last, rest, deletion, rfl, hdelete, h⟩
    rcases deleteNode_gives hdelete with ⟨answer, rfl, rfl⟩
    rcases lockAll_gives hlock with ⟨hcalls, hlocking⟩
    split at h
    · rcases gives_note_bind.1 h with ⟨rfl, rfl⟩
      exact ⟨first, answer, locking, by simp, hcalls, hlocking, rfl, rfl⟩
    · rcases gives_note_bind.1 h with ⟨rfl, rfl⟩
      exact ⟨first, answer, locking, by simp, hcalls, hlocking, rfl, rfl⟩

end Client

end FencedPool
