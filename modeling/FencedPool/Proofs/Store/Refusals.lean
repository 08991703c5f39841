import FencedPool.Proofs.Store.Changes
import FencedPool.Proofs.Store.SessionEnd

/-!
# Refusals — an operation that fails leaves the store as it was

Parents are created one by one before it is known whether there is an ephemeral entry among them or
an entry in the way, and a lock is asked for before it is known whether somebody holds it.  All the
same nothing of this is left behind when the operation fails.  There is one exception: a sequential
creation that finds an entry in its way has used up its number.

This file defines:

* `Service.refusal?` — the error that an action is answered with;
* `Service.Leaves` — what a refused action leaves behind.

The main statement is `refused_leaves`.
-/

namespace FencedPool

def StoreError.of? {α : Type} : Except StoreError α → Option StoreError
  | .ok _ => none
  | .error e => some e

theorem StoreError.toOption_eq_none {α : Type} {answer : Except StoreError α} {e : StoreError}
    (h : of? answer = some e) : answer.toOption = none := by
  cases answer with
  | ok a => cases h
  | error cause => rfl

namespace Service

/-- The error with which an operation of the store is refused, through a session or directly. -/
def refusal? (s : Service) : ServiceAction → Option StoreError
  | .heartbeat id => StoreError.of? (s.heartbeat id).1
  | .call id c => StoreError.of? (s.perform id c).1
  | .put path data => StoreError.of? (s.store.put path data).1
  | .setData path data => StoreError.of? (s.store.setData path data).1
  | .delete path => StoreError.of? (s.store.delete path).1
  | _ => none

/-- What a refused action leaves behind. -/
inductive Leaves (s : Service) : ServiceAction → StoreError → Service → Prop
  /-- Everything is as it was. -/
  | unchanged {a : ServiceAction} {e : StoreError} (hother : e.isNodeExists = false) :
      s.Leaves a e s
  /-- The next number below a parent is used up, and everything else is as it was. -/
  | numbered {id : SessionId} {stem : String} {data : Bytes} {parent : String}
      (hparent : Path.parent? stem = some parent)
      (hpresent : s.store.entries.contains (s.store.nextPath parent stem) = true) :
      s.Leaves (.call id (.create stem data)) (.nodeExists (s.store.nextPath parent stem))
        { s with store := s.store.numbering parent }

end Service

namespace Store

variable {s : Store} {path : String}

/-! ## Operations -/

/-- An operation has changed nothing if it was refused. -/
def Spares {α : Type} (s : Store) (outcome : Outcome α) : Prop :=
  ∀ e, StoreError.of? outcome.1 = some e → e.isNodeExists = false ∧ outcome.2 = s

theorem Refused.spares {α : Type} {outcome : Outcome α} (h : s.Refused outcome) :
    s.Spares outcome := by
  intro e he
  rcases h with ⟨cause, hcause, rfl⟩
  obtain rfl : cause = e := Option.some.inj he
  exact ⟨hcause, rfl⟩

theorem spares_ok {α : Type} (s : Store) (a : α) (s' : Store) : s.Spares (.ok a, s') := by
  intro e he
  cases he

theorem put_spares (hs : s.Rooted) (path : String) (data : Bytes) : s.Spares (s.put path data) := by
  rcases put_cases hs path data with hrefused | ⟨entry, -, hput⟩ | ⟨-, hput⟩
  · exact hrefused.spares
  · rw [hput]
    exact s.spares_ok _ _
  · rw [hput]
    exact s.spares_ok _ _

theorem setData_spares (s : Store) (path : String) (data : Bytes) :
    s.Spares (s.setData path data) := by
  rcases setData_cases s path data with hrefused | ⟨entry, -, hset⟩
  · exact hrefused.spares
  · rw [hset]
    exact s.spares_ok _ _

theorem delete_spares (s : Store) (path : String) : s.Spares (s.delete path) := by
  rcases delete_cases s path with hrefused | ⟨-, hdelete⟩
  · exact hrefused.spares
  · rw [hdelete]
    exact s.spares_ok _ _

theorem acquire_spares (hs : s.OnlyHeld) (path : String) (id : SessionId) :
    s.Spares (s.acquire path id) := by
  rw [acquire_eq hs]
  split
  · split
    · cases s.grant? path with
      | none => exact s.spares_ok _ _
      | some t => exact Refused.spares ⟨_, rfl, rfl⟩
    · exact Refused.spares ⟨_, rfl, rfl⟩
  · exact Refused.spares ⟨_, rfl, rfl⟩

theorem release_spares (hs : s.OnlyHeld) (t : LockToken) : s.Spares (s.release t) := by
  rw [release_eq hs]
  split
  · exact s.spares_ok _ _
  · exact Refused.spares ⟨_, rfl, rfl⟩

theorem read_spares (s : Store) (path : String) : s.Spares (s.read path, s) := by
  unfold read
  split
  · split
    · exact s.spares_ok _ _
    · exact Refused.spares ⟨_, rfl, rfl⟩
  · exact Refused.spares ⟨_, rfl, rfl⟩

theorem isPresent_spares (s : Store) (path : String) : s.Spares (s.isPresent path, s) := by
  unfold isPresent
  split
  · exact s.spares_ok _ _
  · exact Refused.spares ⟨_, rfl, rfl⟩

theorem watch_spares (s : Store) (path : String) : s.Spares (s.watch path) := by
  rcases s.watch_cases path with hrefused | hwatch
  · exact hrefused.spares
  · rw [hwatch]
    exact s.spares_ok _ _

theorem heartbeat_spares (s : Store) (id : SessionId) (now : Instant) :
    s.Spares (s.heartbeat id now) := by
  rcases s.heartbeat_cases id now with hrefused | ⟨sessions, hbeat⟩
  · exact hrefused.spares
  · rw [hbeat]
    exact s.spares_ok _ _

end Store

/-! ## Actions -/

namespace Service

variable {s : Service} {a : ServiceAction} {e : StoreError}

theorem Leaves.of_spares {α : Type} {outcome : Store.Outcome α} (h : s.store.Spares outcome)
    (he : StoreError.of? outcome.1 = some e) : s.Leaves a e { s with store := outcome.2 } := by
  rcases h e he with ⟨hother, hstore⟩
  rw [hstore]
  exact .unchanged hother

/-- A call through an open session. -/
theorem Leaves.of_answer (hlocks : s.store.OnlyHeld) (hentries : s.store.Rooted) {id : SessionId}
    {c : Call} (he : StoreError.of? (Session.answer id s.store c).1 = some e) :
    s.Leaves (.call id c) e { s with store := (Session.answer id s.store c).2 } := by
  cases c with
  | create stem data =>
      rcases Store.create_cases hentries stem data (some id) with
        hrefused | ⟨parent, hparent, -, ⟨hpresent, hcreate⟩ | ⟨-, -, hcreate⟩⟩
      · exact .of_spares hrefused.spares he
      · simp only [Session.answer, hcreate] at he ⊢
        cases he
        exact .numbered hparent hpresent
      · simp only [Session.answer, hcreate] at he
        cases he
  | read path => exact .of_spares (s.store.read_spares path) he
  | isPresent path => exact .of_spares (s.store.isPresent_spares path) he
  | delete path => exact .of_spares (s.store.delete_spares path) he
  | acquire path => exact .of_spares (Store.acquire_spares hlocks path id) he
  | release t => exact .of_spares (Store.release_spares hlocks t) he
  | watch path => exact .of_spares (s.store.watch_spares path) he

theorem Leaves.of_refusal? (hlocks : s.store.OnlyHeld) (hentries : s.store.Rooted)
    (he : s.refusal? a = some e) : s.Leaves a e (s.act a) := by
  cases a with
  | heartbeat id => exact .of_spares (s.store.heartbeat_spares id s.clock.now) he
  | call id c =>
      change StoreError.of? (s.perform id c).1 = some e at he
      change s.Leaves (.call id c) e (s.perform id c).2
      by_cases hopen : s.store.isSessionOpen id = true
      · rw [perform_of_open hopen] at he ⊢
        exact .of_answer hlocks hentries he
      · rw [perform_of_closed hopen] at he ⊢
        cases he
        exact .unchanged rfl
  | put path data => exact .of_spares (Store.put_spares hentries path data) he
  | setData path data => exact .of_spares (s.store.setData_spares path data) he
  | delete path => exact .of_spares (s.store.delete_spares path) he
  | openSession | closeSession _ | expire | advance _ | setTimeout _ | poll _ | dropWatch _
  | provision _ _ _ | runOnce _ _ => cases he

end Service

/-- In every store that a run leads to, an operation that is answered with an error has changed
nothing, save for the number that a creation uses up when it finds an entry in its way. -/
theorem refused_leaves (s : Service) (hs : s.store.Reachable) (a : ServiceAction) (e : StoreError)
    (he : s.refusal? a = some e) : s.Leaves a e (s.act a) := by
  have hlocks : s.store.OnlyHeld := hs.locksSound.onlyHeld
  have hentries : s.store.Rooted := hs.entriesSound.rooted
  exact .of_refusal? hlocks hentries he

/-- An operator has put an entry where the first request would stand. -/
def Service.preempted : Service :=
  (Service.fresh {} .halfMinute).after
    [.openSession, .put "/nodepool/requests/100-0000000000" []]

/-- The creation is refused, and the number of the entry in its way is used up. -/
theorem refused_leaves_preempted :
    let s := Service.preempted
    let a := ServiceAction.call ⟨1⟩ (.create "/nodepool/requests/100-" [])
    s.Leaves a (.nodeExists "/nodepool/requests/100-0000000000") (s.act a) ∧
      (s.act a).store = s.store.numbering "/nodepool/requests" ∧ s.act a ≠ s :=
  ⟨refused_leaves Service.preempted ⟨{}, .halfMinute, _, rfl⟩ _ _ (by decide), by decide, by decide⟩

end FencedPool
