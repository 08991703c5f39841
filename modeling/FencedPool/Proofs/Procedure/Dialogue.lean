import FencedPool.Proofs.Store.Fencing
import FencedPool.Session.Recorded
import Mathlib.Data.List.Nodup
import Mathlib.Data.List.Pairwise

/-!
# Dialogue — a run of a procedure, seen from the calls between it and the store

A run of a procedure is a dialogue: calls with their answers, in turn.  What the procedure gives
depends on the dialogue alone, whatever the store does in the meantime.  What becomes of the store
depends on the dialogue alone, whatever the procedure is for.  So both sides are understood apart
from each other, and a run joins them.

This file defines:

* `Procedure.Gives` — what a procedure gives when its calls are answered so;
* `Store.Dialogue` — how a store changes when it answers so, or refuses some calls beforehand;
* `Procedure.exchanges` — the dialogue of a run, with `dialogue_plain` and `dialogue_recorded`;
* `LockChange` — a change that leaves all but locks alone.

The main statement about the store is `Store.Dialogue.holds_iff`, the lock table after a dialogue.
-/

namespace FencedPool

namespace Exchange

/-- The token whose release was attempted. -/
def attempted? : Exchange → Option LockToken
  | ⟨.release t, _⟩ => some t
  | _ => none

/-- The path whose lock was granted, as it was asked for. -/
def lockedPath? : Exchange → Option String
  | ⟨.acquire path, .ok _⟩ => some path
  | _ => none

theorem mem_released_iff {dialogue : List Exchange} {t : LockToken} :
    t ∈ dialogue.filterMap released? ↔ ⟨.release t, .ok ()⟩ ∈ dialogue := by
  simp only [List.mem_filterMap]
  constructor
  · rintro ⟨x, hx, hxt⟩
    unfold released? at hxt
    split at hxt
    · cases hxt
      exact hx
    · cases hxt
  · intro h
    exact ⟨_, h, rfl⟩

theorem mem_retained_iff {dialogue : List Exchange} {t : LockToken} {e : StoreError} :
    (t, e) ∈ dialogue.filterMap retained? ↔ ⟨.release t, .error e⟩ ∈ dialogue := by
  simp only [List.mem_filterMap]
  constructor
  · rintro ⟨x, hx, hxt⟩
    unfold retained? at hxt
    split at hxt
    · cases hxt
      exact hx
    · cases hxt
  · intro h
    exact ⟨_, h, rfl⟩

theorem mem_attempted_iff {dialogue : List Exchange} {t : LockToken} :
    t ∈ dialogue.filterMap attempted? ↔
      t ∈ dialogue.filterMap released? ∨ ∃ e, (t, e) ∈ dialogue.filterMap retained? := by
  simp only [mem_released_iff]
  simp only [mem_retained_iff]
  simp only [List.mem_filterMap]
  constructor
  · rintro ⟨x, hx, hxt⟩
    unfold attempted? at hxt
    split at hxt
    · next u answer =>
        cases hxt
        cases answer with
        | error e => exact .inr ⟨e, hx⟩
        | ok _ => exact .inl hx
    · cases hxt
  · rintro (h | ⟨e, h⟩)
    · exact ⟨_, h, rfl⟩
    · exact ⟨_, h, rfl⟩

theorem not_mem_released_of_retained {dialogue : List Exchange} {t : LockToken} {e : StoreError}
    (honce : (dialogue.filterMap attempted?).Nodup) (h : (t, e) ∈ dialogue.filterMap retained?) :
    t ∉ dialogue.filterMap released? := by
  intro hreleased
  simp only [mem_retained_iff] at h
  simp only [mem_released_iff] at hreleased
  -- both answers would be to one attempt, so they stand at different places of the dialogue
  have hne : (⟨.release t, .error e⟩ : Exchange) ≠ ⟨.release t, .ok ()⟩ := by
    intro heq
    cases heq
  have hsymm : Std.Symm fun x y : Exchange =>
      ∀ u, x.attempted? = some u → ∀ v, y.attempted? = some v → u ≠ v :=
    ⟨fun _ _ hxy _ hu _ hv huv => hxy _ hv _ hu huv.symm⟩
  exact (List.pairwise_filterMap.1 honce).forall h hreleased hne t rfl t rfl rfl

end Exchange

/-! ## The side of the procedure -/

namespace Procedure

variable {α β σ : Type}

/-- Whether a procedure gives a result when its calls are answered so. -/
def Gives : Procedure α → List Exchange → α → Prop
  | .done b, dialogue, a => dialogue = [] ∧ b = a
  | .call c next, dialogue, a =>
      ∃ answer rest, dialogue = ⟨c, answer⟩ :: rest ∧ (next answer).Gives rest a
  | .tell _ next, dialogue, a => next.Gives dialogue a

@[simp] theorem gives_ask_bind {c : Call} {k : Except StoreError c.Answer → Procedure β}
    {dialogue : List Exchange} {b : β} :
    (ask c >>= k).Gives dialogue b ↔
      ∃ answer rest, dialogue = ⟨c, answer⟩ :: rest ∧ (k answer).Gives rest b := Iff.rfl

@[simp] theorem gives_note_bind {event : Event} {k : Unit → Procedure β}
    {dialogue : List Exchange} {b : β} :
    (note event >>= k).Gives dialogue b ↔ (k ()).Gives dialogue b := Iff.rfl

/-- What a procedure gives after another is given by the end of the dialogue. -/
theorem gives_bind {p : Procedure α} {k : α → Procedure β} {dialogue : List Exchange} {b : β} :
    (p >>= k).Gives dialogue b ↔
      ∃ first rest a, dialogue = first ++ rest ∧ p.Gives first a ∧ (k a).Gives rest b := by
  -- by recursion on the first procedure, whose calls are a prefix of the dialogue
  change (p.bind k).Gives dialogue b ↔ _
  induction p generalizing dialogue with
  | done a =>
      constructor
      · intro h
        exact ⟨[], dialogue, a, rfl, ⟨rfl, rfl⟩, h⟩
      · rintro ⟨first, rest, a', rfl, ⟨rfl, rfl⟩, h⟩
        exact h
  | call c next ih =>
      constructor
      · rintro ⟨answer, tail, rfl, h⟩
        rcases (ih answer).1 h with ⟨first, rest, a, rfl, hfirst, hrest⟩
        exact ⟨⟨c, answer⟩ :: first, rest, a, rfl, ⟨answer, first, rfl, hfirst⟩, hrest⟩
      · rintro ⟨first, rest, a, rfl, ⟨answer, tail, rfl, hfirst⟩, hrest⟩
        exact ⟨answer, tail ++ rest, rfl, (ih answer).2 ⟨tail, rest, a, rfl, hfirst, hrest⟩⟩
  | tell event next ih => exact ih

/-- The calls of a run with their answers. -/
def exchanges (session : Session σ) : Procedure α → σ → List Exchange
  | .done _, _ => []
  | .call c next, s =>
      let reply := session.perform c s
      ⟨c, reply.answer⟩ :: (next reply.answer).exchanges session reply.state
  | .tell _ next, s => next.exchanges session s

/-- A run gives what its dialogue makes the procedure give. -/
theorem gives_run (session : Session σ) (p : Procedure α) (s : σ) :
    p.Gives (p.exchanges session s) (p.run session s).answer := by
  induction p generalizing s with
  | done a => exact ⟨rfl, rfl⟩
  | call c next ih => exact ⟨_, _, rfl, ih _ _⟩
  | tell event next ih => exact ih s

end Procedure

/-! ## The side of the store -/

/-- A change that leaves all but locks and watches alone. -/
structure LockChange (s s' : Store) : Prop where
  entries : s'.entries = s.entries
  sequences : s'.sequences = s.sequences
  sessions : s'.sessions = s.sessions
  opened : s'.opened = s.opened

namespace LockChange

variable {s s' s'' : Store}

theorem refl (s : Store) : LockChange s s := ⟨rfl, rfl, rfl, rfl⟩

theorem trans (h₁ : LockChange s s') (h₂ : LockChange s' s'') : LockChange s s'' :=
  ⟨h₂.entries.trans h₁.entries, h₂.sequences.trans h₁.sequences,
    h₂.sessions.trans h₁.sessions, h₂.opened.trans h₁.opened⟩

end LockChange

/-- Whether a call neither creates nor deletes an entry. -/
def Call.KeepsEntries (c : Call) : Prop := c.operation ≠ .create ∧ c.operation ≠ .delete

namespace Store

variable {s s' : Store} {id : SessionId} {refusal? : Call → Option StoreError}

theorem acquire_change (s : Store) (path : String) (session : SessionId) :
    LockChange s (s.acquire path session).2 := by
  unfold acquire checkingPath
  split
  · split
    · exact .refl s
    · dsimp only
      split
      · exact ⟨rfl, rfl, rfl, rfl⟩
      · exact .refl s
      · exact .refl s
  · exact .refl s

theorem release_change (s : Store) (t : LockToken) : LockChange s (s.release t).2 := by
  unfold release
  split
  · exact .refl s
  · split
    · exact ⟨rfl, rfl, rfl, rfl⟩
    · exact .refl s

theorem watch_lockChange (s : Store) (path : String) : LockChange s (s.watch path).2 := by
  unfold watch checkingPath
  split
  · exact ⟨rfl, rfl, rfl, rfl⟩
  · exact .refl s

/-- Answers a call through a session, unless it is refused beforehand. -/
def respond (id : SessionId) (refusal? : Call → Option StoreError) (s : Store) (c : Call) :
    Except StoreError c.Answer × Store :=
  match refusal? c with
  | some e => (.error e, s)
  | none => (((Session.plain id).perform c s).answer, ((Session.plain id).perform c s).state)

theorem respond_of_refused {c : Call} {e : StoreError} (h : refusal? c = some e) :
    s.respond id refusal? c = (.error e, s) := by
  simp only [respond, h]

theorem respond_of_passed {c : Call} (h : refusal? c = none) :
    s.respond id refusal? c =
      (((Session.plain id).perform c s).answer, ((Session.plain id).perform c s).state) := by
  simp only [respond, h]

theorem respond_change {c : Call} (h : c.KeepsEntries) :
    LockChange s (s.respond id refusal? c).2 := by
  cases hr : refusal? c with
  | some e =>
      simp only [respond_of_refused hr]
      exact .refl s
  | none =>
      simp only [respond_of_passed hr]
      by_cases hopen : s.isSessionOpen id = true
      · simp only [Session.plain_perform_of_open hopen]
        cases c with
        | create stem data => exact absurd rfl h.1
        | read path => exact .refl s
        | isPresent path => exact .refl s
        | delete path => exact absurd rfl h.2
        | acquire path => exact s.acquire_change path id
        | release t => exact s.release_change t
        | watch path => exact s.watch_lockChange path
      · simp only [Session.plain_perform_of_closed hopen]
        exact .refl s

theorem respond_sessions (s : Store) (c : Call) :
    (s.respond id refusal? c).2.sessions = s.sessions := by
  -- only creating and deleting are left, and these change entries alone
  by_cases h : c.KeepsEntries
  · exact (respond_change h).sessions
  · cases hr : refusal? c with
    | some e => simp only [respond_of_refused hr]
    | none =>
        simp only [respond_of_passed hr]
        by_cases hopen : s.isSessionOpen id = true
        · simp only [Session.plain_perform_of_open hopen]
          cases c with
          | create stem data => exact (s.createSequential_change stem data (some id)).sessions
          | delete path => exact (s.delete_change path).sessions
          | _ => exact absurd ⟨nofun, nofun⟩ h
        · simp only [Session.plain_perform_of_closed hopen]

/-- A call is a step of the lock table that grants and releases what its answer says. -/
theorem respond_lockStep (id : SessionId) (refusal? : Call → Option StoreError)
    (hs : s.LocksSound) (c : Call) :
    LockStep s (Exchange.granted? ⟨c, (s.respond id refusal? c).1⟩)
      (Exchange.released? ⟨c, (s.respond id refusal? c).1⟩) (s.respond id refusal? c).2 := by
  cases hr : refusal? c with
  | some e =>
      simp only [respond_of_refused hr, Exchange.granted?_error, Exchange.released?_error]
      exact (EntryChange.refl s).lockStep hs
  | none =>
      simp only [respond_of_passed hr]
      exact Session.plain_lockStep hs id c

theorem path_of_respond_acquire (id : SessionId) (refusal? : Call → Option StoreError)
    (hs : s.LocksSound) {path : String} {t : LockToken}
    (h : (s.respond id refusal? (.acquire path)).1 = .ok t) : t.path = path := by
  cases hr : refusal? (.acquire path) with
  | some e =>
      simp only [respond_of_refused hr] at h
      cases h
  | none =>
      simp only [respond_of_passed hr] at h
      by_cases hopen : s.isSessionOpen id = true
      · simp only [Session.plain_perform_of_open hopen] at h
        simp only [Session.answer] at h
        rcases acquire_cases hs.onlyHeld path id with ⟨e, hacquire⟩ | ⟨-, hacquire⟩
        · simp only [hacquire] at h
          cases h
        · simp only [hacquire] at h
          cases h
          rfl
      · simp only [Session.plain_perform_of_closed hopen] at h
        cases h

/-- How a store changes when it answers the calls of a session so. -/
def Dialogue (id : SessionId) (refusal? : Call → Option StoreError) :
    Store → List Exchange → Store → Prop
  | s, [], s' => s' = s
  | s, x :: rest, s' =>
      x.answer = (s.respond id refusal? x.call).1 ∧
        Dialogue id refusal? (s.respond id refusal? x.call).2 rest s'

theorem dialogue_append {first rest : List Exchange} :
    Dialogue id refusal? s (first ++ rest) s' ↔
      ∃ m, Dialogue id refusal? s first m ∧ Dialogue id refusal? m rest s' := by
  induction first generalizing s with
  | nil =>
      constructor
      · intro h
        exact ⟨s, rfl, h⟩
      · rintro ⟨m, rfl, h⟩
        exact h
  | cons x first ih =>
      constructor
      · rintro ⟨hx, h⟩
        rcases ih.1 h with ⟨m, hfirst, hrest⟩
        exact ⟨m, ⟨hx, hfirst⟩, hrest⟩
      · rintro ⟨m, ⟨hx, hfirst⟩, hrest⟩
        exact ⟨hx, ih.2 ⟨m, hfirst, hrest⟩⟩

namespace Dialogue

variable {dialogue : List Exchange}

theorem sessions (h : Dialogue id refusal? s dialogue s') : s'.sessions = s.sessions := by
  induction dialogue generalizing s with
  | nil => rw [h]
  | cons x rest ih => exact (ih h.2).trans (s.respond_sessions x.call)

/-- Calls that neither create nor delete entries leave all but locks alone. -/
theorem change (h : Dialogue id refusal? s dialogue s')
    (hkeeps : ∀ x ∈ dialogue, x.call.KeepsEntries) : LockChange s s' := by
  induction dialogue generalizing s with
  | nil =>
      rw [h]
      exact .refl s
  | cons x rest ih =>
      have hx := hkeeps x List.mem_cons_self
      exact (respond_change hx).trans (ih h.2 fun y hy => hkeeps y (List.mem_cons_of_mem x hy))

/-- Seen from outside, a dialogue is a run that makes the calls which are not refused beforehand. -/
theorem exists_run (h : Dialogue id refusal? s dialogue s') (v : Service) (hv : v.store = s) :
    ∃ actions, v.after actions = { v with store := s' } ∧
      v.grantsAlong actions = dialogue.filterMap Exchange.granted? ∧
      v.releasesAlong actions = dialogue.filterMap Exchange.released? := by
  induction dialogue generalizing s v with
  | nil =>
      have hs' : s' = v.store := Eq.trans h hv.symm
      exact ⟨[], by simp only [hs', Service.after_nil], rfl, rfl⟩
  | cons x rest ih =>
      rcases x with ⟨c, answer⟩
      have hanswer : answer = (s.respond id refusal? c).1 := h.1
      have hrest : Dialogue id refusal? (s.respond id refusal? c).2 rest s' := h.2
      subst hv hanswer
      -- a refused call is no action, any other is one
      cases hr : refusal? c with
      | some e =>
          simp only [respond_of_refused hr] at hrest ⊢
          rcases ih hrest v rfl with ⟨actions, hstore, hgrants, hreleases⟩
          exact ⟨actions, hstore, by simpa using hgrants, by simpa using hreleases⟩
      | none =>
          simp only [respond_of_passed hr] at hrest ⊢
          rcases ih hrest (v.act (.call id c)) rfl with ⟨actions, hstore, hgrants, hreleases⟩
          refine ⟨.call id c :: actions, hstore, ?_, ?_⟩
          · rw [Service.grantsAlong, hgrants, List.filterMap_eq_flatMap_toList,
              List.filterMap_eq_flatMap_toList, List.flatMap_cons]
            rfl
          · rw [Service.releasesAlong, hreleases, List.filterMap_eq_flatMap_toList,
              List.filterMap_eq_flatMap_toList, List.flatMap_cons]
            rfl

/-- No token is granted twice, nor is one granted that was in force before. -/
theorem fresh (hs : s.LocksSound) (h : Dialogue id refusal? s dialogue s') :
    (dialogue.filterMap Exchange.granted?).Nodup ∧
      ∀ t ∈ dialogue.filterMap Exchange.granted?, ¬ s.Holds t := by
  let v : Service := { store := s }
  have hv : v.store.LocksSound := hs
  rcases h.exists_run v rfl with ⟨actions, -, hgrants, -⟩
  simp only [← hgrants]
  constructor
  · have hfences := Service.fences_grantsAlong hv actions
    -- tokens with different fences are different
    refine List.Nodup.of_map (·.fence) ?_
    simp only [hfences]
    exact List.nodup_range'
  · intro t ht hold
    have hlt := Service.lt_fence_of_mem_grantsAlong hv ht
    have hle := hs.fence_le t hold
    exact absurd hle (Nat.not_le_of_lt hlt)

theorem open_of_granted (hs : s.LocksSound) (h : Dialogue id refusal? s dialogue s')
    {t : LockToken} (ht : t ∈ dialogue.filterMap Exchange.granted?) :
    s'.isSessionOpen t.holder = true := by
  induction dialogue generalizing s with
  | nil => cases ht
  | cons x rest ih =>
      have hstep := respond_lockStep id refusal? hs x.call
      rw [← h.1] at hstep
      rw [List.filterMap_eq_flatMap_toList, List.flatMap_cons, List.mem_append,
        Option.mem_toList, ← List.filterMap_eq_flatMap_toList] at ht
      rcases ht with hx | hrest
      · -- a token is granted through an open session, and calls end none
        have hopen := (hstep.fresh t hx).2.2
        unfold isSessionOpen at hopen ⊢
        simp only [sessions h.2]
        exact hopen
      · exact ih (hstep.locksSound hs) h.2 hrest

/-- After a dialogue those tokens are in force that were so before or have been granted, and that
have not been released. -/
theorem holds_iff (hs : s.LocksSound) (h : Dialogue id refusal? s dialogue s') (t : LockToken) :
    s'.Holds t ↔ (s.Holds t ∨ t ∈ dialogue.filterMap Exchange.granted?) ∧
      t ∉ dialogue.filterMap Exchange.released? := by
  let v : Service := { store := s }
  rcases h.exists_run v rfl with ⟨actions, hstore, hgrants, hreleases⟩
  have hiff := Service.after_holds_iff (s := v) hs actions t
  simp only [hstore, hgrants, hreleases] at hiff
  simp only [hiff]
  constructor
  · rintro ⟨hin, hrel, -⟩
    exact ⟨hin, hrel⟩
  · rintro ⟨hin, hrel⟩
    refine ⟨hin, hrel, ?_⟩
    -- the session of the holder is open: it was before, or it was granted the token
    rcases hin with hold | hgranted
    · have hopen := hs.live t hold
      unfold isSessionOpen at hopen ⊢
      simp only [h.sessions]
      exact hopen
    · exact h.open_of_granted hs hgranted

theorem lockedPaths (hs : s.LocksSound) (h : Dialogue id refusal? s dialogue s') :
    dialogue.filterMap Exchange.lockedPath? =
      (dialogue.filterMap Exchange.granted?).map (·.path) := by
  induction dialogue generalizing s with
  | nil => rfl
  | cons x rest ih =>
      have hrest := ih ((respond_lockStep id refusal? hs x.call).locksSound hs) h.2
      have hx := h.1
      rcases x with ⟨c, answer⟩
      cases answer with
      | error e =>
          have hlocked : Exchange.lockedPath? ⟨c, .error e⟩ = none := by cases c <;> rfl
          rw [List.filterMap_cons_none hlocked, hrest,
            List.filterMap_cons_none (Exchange.granted?_error c e)]
      | ok a =>
          cases c with
          | acquire path =>
              have hpath : a.path = path := path_of_respond_acquire id refusal? hs hx.symm
              change path :: rest.filterMap Exchange.lockedPath? =
                a.path :: (rest.filterMap Exchange.granted?).map (·.path)
              simp only [hpath, hrest]
          | _ => exact hrest

end Dialogue

end Store

/-! ## Runs -/

theorem Session.recorded_perform (id : SessionId) (c : Call) (r : Recorder) (s : Store) :
    ((recorded (.plain id)).perform c (r, s)).answer = (s.respond id r.failure? c).1 ∧
      ((recorded (.plain id)).perform c (r, s)).state =
        (r.record c, (s.respond id r.failure? c).2) := by
  have hfailure : (r.record c).failure? c = r.failure? c := rfl
  simp only [Session.recorded, hfailure]
  cases hr : r.failure? c with
  | some e =>
      rw [Store.respond_of_refused hr]
      exact ⟨rfl, rfl⟩
  | none =>
      rw [Store.respond_of_passed hr]
      exact ⟨rfl, rfl⟩

namespace Procedure

variable {α β σ : Type}

theorem answer_bind (session : Session σ) (p : Procedure α) (k : α → Procedure β) (s : σ) :
    ((p >>= k).run session s).answer =
      ((k (p.run session s).answer).run session (p.run session s).state).answer := by
  change ((p.bind k).run session s).answer = _
  simp only [run_bind]

theorem run_ask_bind (session : Session σ) (c : Call)
    (k : Except StoreError c.Answer → Procedure β) (s : σ) :
    (ask c >>= k).run session s =
      let reply := session.perform c s
      let rest := (k reply.answer).run session reply.state
      { rest with journal := reply.journal ++ rest.journal } := rfl

@[simp] theorem answer_ask_bind (session : Session σ) (c : Call)
    (k : Except StoreError c.Answer → Procedure β) (s : σ) :
    ((ask c >>= k).run session s).answer =
      ((k (session.perform c s).answer).run session (session.perform c s).state).answer := rfl

@[simp] theorem answer_note_bind (session : Session σ) (event : Event) (k : Unit → Procedure β)
    (s : σ) : ((note event >>= k).run session s).answer = ((k ()).run session s).answer := rfl

/-- A run on a session of the store is a dialogue with the store. -/
theorem dialogue_plain (id : SessionId) (p : Procedure α) (s : Store) :
    Store.Dialogue id (fun _ => none) s (p.exchanges (.plain id) s)
      (p.run (.plain id) s).state := by
  induction p generalizing s with
  | done a => rfl
  | call c next ih => exact ⟨rfl, ih _ _⟩
  | tell event next ih => exact ih s

/-- A run on a recorded session is a dialogue in which the failures in force are refusals. -/
theorem dialogue_recorded (id : SessionId) (p : Procedure α) (r : Recorder) (s : Store) :
    Store.Dialogue id r.failure? s (p.exchanges (.recorded (.plain id)) (r, s))
      (p.run (.recorded (.plain id)) (r, s)).state.2 := by
  induction p generalizing r s with
  | done a => rfl
  | call c next ih =>
      rcases Session.recorded_perform id c r s with ⟨hanswer, hstate⟩
      refine ⟨hanswer, ?_⟩
      have hrest := ih ((Session.recorded (.plain id)).perform c (r, s)).answer (r.record c)
        (s.respond id r.failure? c).2
      rw [← hstate] at hrest
      exact hrest
  | tell event next ih => exact ih r s

end Procedure

end FencedPool
