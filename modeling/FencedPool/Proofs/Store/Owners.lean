import FencedPool.Proofs.Procedure.Dialogue
import FencedPool.Proofs.Store.Rooted

/-!
# Owners — entries belong to open sessions

An entry gets its owner from the open session that creates it and keeps it for as long as it stands,
and a session that ends takes its entries with it.  Since nothing stands below an ephemeral entry,
the tree has no gaps afterwards.

This file defines:

* `Store.Owned` — only open sessions own entries;
* `Store.EntriesSound` — the invariant of the tree.

The main statements are `Service.act_entriesSound` and `Store.Reachable.entriesSound`.
-/

namespace FencedPool

namespace Store

variable {s s' : Store} {path : String}

/-- Only open sessions own entries. -/
def Owned (s : Store) : Prop :=
  ∀ path entry id, s.entries.get? path = some entry → entry.owner = some id →
    s.isSessionOpen id = true

/-- What holds of the tree of every store that a run leads to. -/
structure EntriesSound (s : Store) : Prop where
  rooted : s.Rooted
  owned : s.Owned

/-! ## Changes of entries -/

theorem Owned.write (hs : s.Owned) {entry : Entry} (event : WatchEvent)
    (howner : ∀ id, entry.owner = some id → s.isSessionOpen id = true) :
    (s.write path entry event).Owned := by
  intro p e id he hid
  rw [get?_write] at he
  split at he
  · cases he
    exact howner id hid
  · exact hs p e id he hid

theorem Owned.remove (hs : s.Owned) : (s.remove path).Owned := by
  intro p e id he hid
  rw [get?_remove] at he
  split at he
  · cases he
  · exact hs p e id he hid

theorem Owned.ensureParents (hs : s.Owned) (paths : List String) :
    (s.ensureParents paths).2.Owned := by
  induction paths generalizing s with
  | nil => exact hs
  | cons path rest ih =>
      unfold Store.ensureParents
      split
      · exact ih (hs.write _ fun id hid => by cases hid)
      · split
        · exact hs
        · exact ih hs

theorem Owned.belowParents {α : Type} (hs : s.Owned) {next : Store → Outcome α}
    (hnext : ∀ s', EntryChange s s' → s'.Owned → (next s').2.Owned) :
    (s.belowParents path next).2.Owned := by
  have hparents := hs.ensureParents (Path.ancestors path)
  have hchange := s.ensureParents_change (Path.ancestors path)
  unfold Store.belowParents
  generalize s.ensureParents (Path.ancestors path) = outcome at hparents hchange ⊢
  rcases outcome with ⟨_ | _, s'⟩
  · exact hparents
  · exact hnext s' hchange hparents

theorem put_owned (hs : s.Owned) (path : String) (data : Bytes) : (s.put path data).2.Owned := by
  unfold put checkingPath
  split
  · refine hs.belowParents fun s' _ hs' => ?_
    split
    · next entry hentry => exact hs'.write _ fun id hid => hs' path entry id hentry hid
    · exact hs'.write _ fun id hid => by cases hid
  · exact hs

theorem setData_owned (hs : s.Owned) (path : String) (data : Bytes) :
    (s.setData path data).2.Owned := by
  unfold setData checkingPath
  split
  · split
    · next entry hentry => exact hs.write _ fun id hid => hs path entry id hentry hid
    · exact hs
  · exact hs

theorem delete_owned (hs : s.Owned) (path : String) : (s.delete path).2.Owned := by
  unfold delete checkingPath
  split
  · split
    · exact hs
    · split
      · exact hs
      · exact hs.remove
  · exact hs

theorem createSequential_owned (hs : s.Owned) (stem : String) (data : Bytes) {id : SessionId}
    (hopen : s.isSessionOpen id = true) : (s.createSequential stem data (some id)).2.Owned := by
  unfold createSequential
  split
  · exact hs
  · next parent _ =>
      unfold checkingPath
      split
      · refine hs.belowParents fun s' hchange hs' => ?_
        have hnumbered : (s'.numbering parent).Owned := hs'
        dsimp only
        split
        · split
          · exact hnumbered
          · refine hnumbered.write _ fun j hj => ?_
            cases hj
            exact (hchange.isSessionOpen id).trans hopen
        · exact hnumbered
      · exact hs

theorem put_entriesSound (hs : s.EntriesSound) (path : String) (data : Bytes) :
    (s.put path data).2.EntriesSound :=
  ⟨put_rooted hs.rooted path data, put_owned hs.owned path data⟩

theorem setData_entriesSound (hs : s.EntriesSound) (path : String) (data : Bytes) :
    (s.setData path data).2.EntriesSound :=
  ⟨setData_rooted hs.rooted path data, setData_owned hs.owned path data⟩

theorem delete_entriesSound (hs : s.EntriesSound) (path : String) :
    (s.delete path).2.EntriesSound :=
  ⟨delete_rooted hs.rooted path, delete_owned hs.owned path⟩

/-! ## Everything else -/

/-- What leaves the entries alone and ends no session keeps the tree sound. -/
theorem EntriesSound.of_entries_eq (hs : s.EntriesSound) (hentries : s'.entries = s.entries)
    (hkept : ∀ id, s.isSessionOpen id = true → s'.isSessionOpen id = true) : s'.EntriesSound where
  rooted := by
    constructor
    · simp only [hentries]
      exact hs.rooted.paths
    · simp only [hentries]
      exact hs.rooted.parents
  owned p e id he hid := by
    rw [hentries] at he
    exact hkept id (hs.owned p e id he hid)

theorem EntriesSound.of_change (hs : s.EntriesSound) (hchange : LockChange s s') :
    s'.EntriesSound := by
  refine hs.of_entries_eq hchange.entries fun id hid => ?_
  unfold isSessionOpen at hid ⊢
  rw [hchange.sessions]
  exact hid

/-! ## The end of a session -/

theorem mem_ownedBy_iff {id : SessionId} :
    path ∈ s.ownedBy id ↔ ∃ entry, s.entries.get? path = some entry ∧ entry.owner = some id := by
  unfold ownedBy
  rw [Table.mem_keys_iff]
  unfold Table.contains
  simp [Option.isSome_iff_exists, Table.get?_filter_eq_some_iff]

/-- The entries of the session are gone, and all others stand as before. -/
theorem get?_closeSession {id : SessionId} (hopen : s.isSessionOpen id = true) (p : String)
    (entry : Entry) :
    (s.closeSession id).entries.get? p = some entry ↔
      s.entries.get? p = some entry ∧ entry.owner ≠ some id := by
  let ended : Store := { s with sessions := s.sessions.erase id }
  have hentries :
      (s.closeSession id).entries = ((ended.ownedBy id).foldl remove ended).entries := by
    unfold closeSession
    rw [if_pos hopen]
  rw [hentries, get?_removeAll]
  split
  · next howned =>
      rcases mem_ownedBy_iff.1 howned with ⟨e, he, hid⟩
      change s.entries.get? p = some e at he
      rw [he]
      constructor
      · intro h
        cases h
      · rintro ⟨h, hne⟩
        cases h
        exact absurd hid hne
  · next howned =>
      constructor
      · intro he
        exact ⟨he, fun hid => howned (mem_ownedBy_iff.2 ⟨entry, he, hid⟩)⟩
      · rintro ⟨he, -⟩
        exact he

theorem closeSession_sessions {id : SessionId} (hopen : s.isSessionOpen id = true) :
    (s.closeSession id).sessions = s.sessions.erase id := by
  unfold closeSession
  rw [if_pos hopen]
  exact (removeAll_change _ _).sessions

theorem closeSession_of_closed {id : SessionId} (hclosed : ¬ s.isSessionOpen id = true) :
    s.closeSession id = s := by
  unfold closeSession
  rw [if_neg hclosed]

theorem closeSession_entriesSound (hs : s.EntriesSound) (id : SessionId) :
    (s.closeSession id).EntriesSound := by
  by_cases hopen : s.isSessionOpen id = true
  · have hentries := get?_closeSession hopen
    constructor
    · refine hs.rooted.of_kept ?_ ?_
      · intro p e he
        exact ((hentries p e).1 he).1
      · intro p e he hnone
        exact (hentries p e).2 ⟨he, by simp [hnone]⟩
    · intro p e j he hj
      rcases (hentries p e).1 he with ⟨hold, hne⟩
      refine (isSessionOpen_erase (closeSession_sessions hopen) j).2 ⟨hs.owned p e j hold hj, ?_⟩
      rintro rfl
      exact hne hj
  · rw [closeSession_of_closed hopen]
    exact hs

theorem closeAll_entriesSound (hs : s.EntriesSound) (ids : List SessionId) :
    (ids.foldl closeSession s).EntriesSound := by
  induction ids generalizing s with
  | nil => exact hs
  | cons id rest ih => exact ih (closeSession_entriesSound hs id)

end Store

/-! ## Calls and actions -/

theorem Session.answer_entriesSound {s : Store} {id : SessionId} (hs : s.EntriesSound)
    (hopen : s.isSessionOpen id = true) (c : Call) : (answer id s c).2.EntriesSound := by
  cases c with
  | create stem data =>
      exact ⟨Store.createSequential_rooted hs.rooted stem data (some id),
        Store.createSequential_owned hs.owned stem data hopen⟩
  | read path => exact hs
  | isPresent path => exact hs
  | delete path => exact Store.delete_entriesSound hs path
  | acquire path => exact hs.of_change (s.acquire_change path id)
  | release t => exact hs.of_change (s.release_change t)
  | watch path => exact hs.of_change (s.watch_lockChange path)

/-- Every action keeps the tree sound. -/
theorem Service.act_entriesSound (s : Service) (a : ServiceAction) (hs : s.store.EntriesSound) :
    (s.act a).store.EntriesSound := by
  -- the store is named apart from its clock, so that no clock is ever compared
  rcases s with ⟨store, clock, timeout⟩
  cases a with
  | openSession =>
      refine hs.of_entries_eq rfl fun id hid => ?_
      exact (Store.isSessionOpen_insert rfl id).2 (.inr hid)
  | heartbeat id =>
      unfold act heartbeat Store.heartbeat
      dsimp only
      split
      · exact hs
      · refine hs.of_entries_eq rfl fun j hj => ?_
        exact (Store.isSessionOpen_insert rfl j).2 (.inr hj)
  | closeSession id => exact Store.closeSession_entriesSound hs id
  | expire => exact Store.closeAll_entriesSound hs _
  | advance d => exact hs
  | setTimeout d => exact hs
  | call id c =>
      unfold act perform
      by_cases hopen : store.isSessionOpen id = true
      · simp only [Session.plain_perform_of_open hopen]
        exact Session.answer_entriesSound hs hopen c
      · simp only [Session.plain_perform_of_closed hopen]
        exact hs
  | put path data => exact Store.put_entriesSound hs path data
  | setData path data => exact Store.setData_entriesSound hs path data
  | delete path => exact Store.delete_entriesSound hs path
  | poll id => exact hs.of_entries_eq rfl fun _ h => h
  | dropWatch id => exact hs.of_entries_eq rfl fun _ h => h
  | provision scheduler count label =>
      refine scheduler.provision_preserves ?_ store count label hs
      intro s' path data hs'
      exact Store.put_entriesSound hs' path data
  | runOnce scheduler perRequest =>
      refine scheduler.runOnce_preserves ?_ store perRequest hs
      intro s' path data hs'
      exact Store.setData_entriesSound hs' path data

theorem Store.entriesSound_empty : Store.EntriesSound {} where
  rooted := {
    paths := fun path entry h => by cases h
    parents := fun path entry h => by cases h }
  owned path entry id h := by cases h

/-- The tree of every store that a run leads to is sound. -/
theorem Store.Reachable.entriesSound {s : Store} (h : s.Reachable) : s.EntriesSound :=
  h.induct entriesSound_empty Service.act_entriesSound

end FencedPool
