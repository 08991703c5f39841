import FencedPool.Proofs.Store.Changes
import FencedPool.Proofs.Store.SessionEnd

/-!
# Numbering — sequence numbers are never used again

The count below a parent outlives everything that is created there, and the parent itself.  Only a
sequential creation moves it on, and nothing ever moves it back.

This file defines:

* `Store.counter` — the next sequence number below a parent;
* `Service.assigned?` — the path that an action is assigned, with its stem.

The main statements are `Service.act_assigns`, with `counter_le_act` as a consequence, and
`create_ok`, which says what a sequential creation does when it succeeds.
-/

namespace FencedPool

open FencedPool.Path

namespace Store

variable {s s' : Store} {parent p : String}

/-- The next sequence number below a parent. -/
def counter (s : Store) (parent : String) : Nat := (s.sequences.get? parent).getD 0

theorem counter_congr (h : s'.sequences = s.sequences) (p : String) :
    s'.counter p = s.counter p := by
  unfold counter
  rw [h]

theorem counter_numbering (s : Store) (parent p : String) :
    (s.numbering parent).counter p = if p = parent then s.counter parent + 1 else s.counter p := by
  have hget := s.sequences.get?_insert parent p (s.counter parent + 1)
  change ((s.sequences.insert parent (s.counter parent + 1)).get? p).getD 0 = _
  rw [hget]
  split
  · rfl
  · rfl

theorem counter_le_numbering (s : Store) (parent p : String) :
    s.counter p ≤ (s.numbering parent).counter p := by
  rw [counter_numbering]
  split
  · next hp =>
      rw [hp]
      exact Nat.le_succ _
  · exact Nat.le_refl _

theorem counter_creation (s : Store) (paths : List String) (parent path : String) (entry : Entry)
    (event : WatchEvent) (p : String) :
    (((s.withParents paths).numbering parent).write path entry event).counter p =
      (s.numbering parent).counter p := by
  refine counter_congr ?_ p
  change ((s.withParents paths).numbering parent).sequences = _
  unfold numbering
  rw [withParents_sequences]

/-! ## Operations -/

theorem put_sequences (hs : s.Rooted) (path : String) (data : Bytes) :
    (s.put path data).2.sequences = s.sequences := by
  rcases put_cases hs path data with ⟨e, -, hput⟩ | ⟨entry, -, hput⟩ | ⟨-, hput⟩
  · rw [hput]
  · rw [hput]
    rfl
  · rw [hput]
    exact s.withParents_sequences _

theorem setData_sequences (s : Store) (path : String) (data : Bytes) :
    (s.setData path data).2.sequences = s.sequences := by
  rcases setData_cases s path data with ⟨e, -, hset⟩ | ⟨entry, -, hset⟩
  · rw [hset]
  · rw [hset]
    rfl

theorem delete_sequences (s : Store) (path : String) :
    (s.delete path).2.sequences = s.sequences := by
  rcases delete_cases s path with ⟨e, -, hdelete⟩ | ⟨-, hdelete⟩
  · rw [hdelete]
  · rw [hdelete]
    rfl

theorem heartbeat_sequences (s : Store) (id : SessionId) (now : Instant) :
    (s.heartbeat id now).2.sequences = s.sequences := by
  rcases s.heartbeat_cases id now with ⟨e, -, hbeat⟩ | ⟨sessions, hbeat⟩
  · rw [hbeat]
  · rw [hbeat]

theorem closeSession_sequences (s : Store) (id : SessionId) :
    (s.closeSession id).sequences = s.sequences := by
  unfold closeSession
  split
  · exact removeAll_sequences _ _
  · rfl

theorem closeAll_sequences (s : Store) (ids : List SessionId) :
    (ids.foldl closeSession s).sequences = s.sequences := by
  induction ids generalizing s with
  | nil => rfl
  | cons id rest ih => exact (ih (s.closeSession id)).trans (s.closeSession_sequences id)

/-- A creation that succeeds uses up the next number, at a path where nothing stood, and leaves all
entries that there were. -/
theorem create_ok (hs : s.Rooted) {stem path : String} {data : Bytes} {owner : Option SessionId}
    (h : (s.createSequential stem data owner).1 = .ok path) :
    ∃ parent, parent? stem = some parent ∧ isEntryPath parent = true ∧
      path = stem ++ Text.padded 10 sequenceDigits (s.counter parent) ∧
      s.entries.get? path = none ∧
      (s.createSequential stem data owner).2.entries.get? path = some ⟨data, owner⟩ ∧
      (∀ p entry, s.entries.get? p = some entry →
        (s.createSequential stem data owner).2.entries.get? p = some entry) ∧
      ∀ p, (s.createSequential stem data owner).2.counter p = (s.numbering parent).counter p := by
  rcases create_cases hs stem data owner with
    ⟨e, -, hcreate⟩ | ⟨parent, hparent, hentry, ⟨-, hcreate⟩ | ⟨habsent, -, hcreate⟩⟩
  · rw [hcreate] at h
    cases h
  · rw [hcreate] at h
    cases h
  · rw [hcreate] at h ⊢
    cases h
    refine ⟨parent, hparent, hentry, rfl, habsent, ?_, ?_, ?_⟩
    · rw [get?_write, if_pos rfl]
    · intro p entry hold
      have hne : p ≠ s.nextPath parent stem := by
        rintro rfl
        rw [habsent] at hold
        cases hold
      have hkept : (s.withParents (ancestors stem)).entries.get? p = some entry := by
        rw [get?_withParents, hold]
        rfl
      rw [get?_write, if_neg hne]
      exact hkept
    · intro p
      exact s.counter_creation _ _ _ _ _ p

/-- What an answer to a sequential creation says about its path.  The number has been used up as
well when an entry stood there already. -/
def assignedBy? : Except StoreError String → Option String
  | .ok path => some path
  | .error (.nodeExists path) => some path
  | .error _ => none

/-- A sequential creation is assigned the next number below its parent, or leaves all counts. -/
theorem create_assigns (hs : s.Rooted) (stem : String) (data : Bytes) (owner : Option SessionId) :
    let outcome := s.createSequential stem data owner
    (assignedBy? outcome.1 = none ∧ outcome.2.sequences = s.sequences) ∨
      ∃ parent, parent? stem = some parent ∧ isEntryPath parent = true ∧
        assignedBy? outcome.1 = some (s.nextPath parent stem) ∧
        ∀ p, outcome.2.counter p = (s.numbering parent).counter p := by
  intro outcome
  rcases create_cases hs stem data owner with
    ⟨e, he, hcreate⟩ | ⟨parent, hparent, hentry, ⟨-, hcreate⟩ | ⟨-, -, hcreate⟩⟩
  · rw [show outcome = _ from hcreate]
    refine .inl ⟨?_, rfl⟩
    cases e with
    | nodeExists path => cases he
    | _ => rfl
  · rw [show outcome = _ from hcreate]
    exact .inr ⟨parent, hparent, hentry, rfl, fun p => rfl⟩
  · rw [show outcome = _ from hcreate]
    exact .inr ⟨parent, hparent, hentry, rfl, fun p => s.counter_creation _ _ _ _ _ p⟩

end Store

/-! ## Calls and actions -/

/-- A path that is assigned to a sequential creation, with the stem that was asked for. -/
structure Assignment where
  stem : String
  path : String
  deriving DecidableEq

namespace Service

/-- The path that an action is assigned, if it is a sequential creation that gets as far. -/
def assigned? (s : Service) : ServiceAction → Option Assignment
  | .call id (.create stem data) =>
      (Store.assignedBy? (s.perform id (.create stem data)).1).map (⟨stem, ·⟩)
  | _ => none

/-- Whether an action, if it is assigned a path, uses up the next number below the parent, and
otherwise leaves all counts. -/
def Assigns (s : Service) (a : ServiceAction) : Prop :=
  (s.assigned? a = none ∧ (s.act a).store.sequences = s.store.sequences) ∨
    ∃ parent stem, s.assigned? a = some ⟨stem, s.store.nextPath parent stem⟩ ∧
      parent? stem = some parent ∧ Store.isEntryPath parent = true ∧
      ∀ p, (s.act a).store.counter p = (s.store.numbering parent).counter p

theorem call_assigns {s : Service} (hs : s.store.EntriesSound) (id : SessionId) (c : Call) :
    s.Assigns (.call id c) := by
  by_cases hopen : s.store.isSessionOpen id = true
  · have hafter : (s.act (.call id c)).store = (Session.answer id s.store c).2 :=
      congrArg (·.2.store) (perform_of_open hopen c)
    unfold Assigns
    rw [hafter]
    cases c with
    | create stem data =>
        have hanswer : s.assigned? (.call id (.create stem data)) =
            (Store.assignedBy? (s.store.createSequential stem data (some id)).1).map
              (⟨stem, ·⟩) := by
          unfold assigned?
          dsimp only
          rw [perform_of_open hopen]
          rfl
        rw [hanswer]
        rcases Store.create_assigns hs.rooted stem data (some id) with
          ⟨hnone, hsame⟩ | ⟨parent, hparent, hentry, hpath, hcounter⟩
        · rw [hnone]
          exact .inl ⟨rfl, hsame⟩
        · rw [hpath]
          exact .inr ⟨parent, stem, rfl, hparent, hentry, hcounter⟩
    | read path => exact .inl ⟨rfl, rfl⟩
    | isPresent path => exact .inl ⟨rfl, rfl⟩
    | delete path => exact .inl ⟨rfl, s.store.delete_sequences path⟩
    | acquire path => exact .inl ⟨rfl, (s.store.acquire_change path id).sequences⟩
    | release t => exact .inl ⟨rfl, (s.store.release_change t).sequences⟩
    | watch path => exact .inl ⟨rfl, (s.store.watch_lockChange path).sequences⟩
  · refine .inl ⟨?_, congrArg (·.2.store.sequences) (perform_of_closed hopen c)⟩
    cases c with
    | create stem data =>
        unfold assigned?
        dsimp only
        rw [perform_of_closed hopen]
        rfl
    | _ => rfl

theorem runOnce_sequences (store : Store) (scheduler : Scheduler) (perRequest : Nat) :
    (scheduler.runOnce store perRequest).state.2.sequences = store.sequences := by
  let P : Store → Prop := fun after => after.sequences = store.sequences
  refine scheduler.runOnce_preserves (P := P) ?_ store perRequest rfl
  intro after path data hsequences
  exact (after.setData_sequences path data).trans hsequences

/-- An action is assigned the next number below one parent, or leaves all counts. -/
theorem act_assigns (s : Service) (hs : s.store.EntriesSound) (a : ServiceAction) :
    s.Assigns a := by
  -- the store is named apart from its clock, so that no clock is ever compared
  rcases s with ⟨store, clock, timeout⟩
  cases a with
  | openSession => exact .inl ⟨rfl, rfl⟩
  | heartbeat id => exact .inl ⟨rfl, store.heartbeat_sequences id clock.now⟩
  | closeSession id => exact .inl ⟨rfl, store.closeSession_sequences id⟩
  | expire => exact .inl ⟨rfl, store.closeAll_sequences _⟩
  | advance d => exact .inl ⟨rfl, rfl⟩
  | setTimeout d => exact .inl ⟨rfl, rfl⟩
  | call id c => exact call_assigns hs id c
  | put path data => exact .inl ⟨rfl, Store.put_sequences hs.rooted path data⟩
  | setData path data => exact .inl ⟨rfl, store.setData_sequences path data⟩
  | delete path => exact .inl ⟨rfl, store.delete_sequences path⟩
  | poll id => exact .inl ⟨rfl, rfl⟩
  | dropWatch id => exact .inl ⟨rfl, rfl⟩
  | provision scheduler count label =>
      let P : Store → Prop := fun after => after.EntriesSound ∧ after.sequences = store.sequences
      have hkept : P (scheduler.provision store count label).state.2 := by
        refine scheduler.provision_preserves ?_ store count label ⟨hs, rfl⟩
        rintro after path data ⟨hafter, hsequences⟩
        exact ⟨Store.put_entriesSound hafter path data,
          (Store.put_sequences hafter.rooted path data).trans hsequences⟩
      exact .inl ⟨rfl, hkept.2⟩
  | runOnce scheduler perRequest => exact .inl ⟨rfl, runOnce_sequences store scheduler perRequest⟩

/-- No action moves the count below a parent back. -/
theorem counter_le_act (s : Service) (hs : s.store.EntriesSound) (a : ServiceAction) (p : String) :
    s.store.counter p ≤ (s.act a).store.counter p := by
  rcases s.act_assigns hs a with ⟨-, hsame⟩ | ⟨parent, -, -, -, -, hcounter⟩
  · exact Nat.le_of_eq (Store.counter_congr hsame p).symm
  · rw [hcounter]
    exact s.store.counter_le_numbering parent p

end Service

end FencedPool
