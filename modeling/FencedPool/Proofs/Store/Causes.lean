import FencedPool.Proofs.Store.Refusals
import FencedPool.Proofs.Store.Tracking

/-!
# Causes — which operations change an entry, and how

An entry comes into being when it is put, when it is created below its parent, or as a missing
parent of either.  Its data are written by putting it again or by setting them.  It goes when it is
deleted or when the session that owns it ends.  Nothing else changes an entry, and nothing that is
refused does.

This file defines:

* `Service.change?` — what an action makes of an entry;
* `Service.Causes` — the actions that can make that of it.

The main statements are `causes_of_change?` and `change?_of_refused`.
-/

namespace FencedPool

open FencedPool.Path

/-- Whether an action is a single operation, and not a scheduler that makes a series of writes. -/
def ServiceAction.isSingle : ServiceAction → Bool
  | .provision .. | .runOnce .. => false
  | _ => true

namespace Service

/-- The path whose data an action has written. -/
def written? (s : Service) : ServiceAction → Option String
  | .put path data => (s.store.put path data).1.toOption.map fun _ => path
  | .setData path data => (s.store.setData path data).1.toOption.map fun _ => path
  | _ => none

/-- What an action makes of the entry at a path. -/
def change? (s : Service) (a : ServiceAction) (p : String) : Option WatchEvent :=
  s.store.change? (s.act a).store (s.written? a) p

/-- The operations that change the entry at a path, with what they make of it. -/
inductive Causes (s : Service) (p : String) : ServiceAction → WatchEvent → Prop
  | put {path : String} {data : Bytes} (hpath : p = path ∨ p ∈ ancestors path) :
      Causes s p (.put path data) (.created p)
  | create {id : SessionId} {stem parent : String} {data : Bytes}
      (hparent : parent? stem = some parent)
      (hpath : p = s.store.nextPath parent stem ∨ p ∈ ancestors stem) :
      Causes s p (.call id (.create stem data)) (.created p)
  | overwrite {data : Bytes} : Causes s p (.put p data) (.dataChanged p)
  | setData {data : Bytes} : Causes s p (.setData p data) (.dataChanged p)
  | delete : Causes s p (.delete p) (.deleted p)
  | deleteThrough {id : SessionId} : Causes s p (.call id (.delete p)) (.deleted p)
  | closed {id : SessionId} {entry : Entry} (hentry : s.store.entries.get? p = some entry)
      (howner : entry.owner = some id) : Causes s p (.closeSession id) (.deleted p)
  | expired {id : SessionId} {entry : Entry} (hid : id ∈ s.store.stale s.clock)
      (hentry : s.store.entries.get? p = some entry) (howner : entry.owner = some id) :
      Causes s p .expire (.deleted p)

end Service

namespace Store

variable {s s' : Store} {path p : String} {written : Option String} {entry : Entry}

theorem change?_cases {event : WatchEvent} (h : s.change? s' written p = some event) :
    (event = .created p ∧ s.entries.get? p = none ∧ ∃ entry, s'.entries.get? p = some entry) ∨
      (event = .deleted p ∧ s'.entries.get? p = none ∧ ∃ entry, s.entries.get? p = some entry) ∨
      event = .dataChanged p ∧ written = some p := by
  unfold change? at h
  split at h
  · cases h
  · next hbefore hafter =>
      cases h
      exact .inl ⟨rfl, hbefore, _, hafter⟩
  · next hbefore hafter =>
      cases h
      exact .inr (.inl ⟨rfl, hafter, _, hbefore⟩)
  · split at h
    · next hwritten =>
        cases h
        exact .inr (.inr ⟨rfl, hwritten⟩)
    · cases h

/-! ## Entries that come into being -/

/-- A new entry may come with parents. -/
theorem eq_or_mem_of_insert {paths : List String} (hbefore : s.entries.get? p = none)
    (hafter : ((s.withParents paths).entries.insert path entry).get? p ≠ none) :
    p = path ∨ p ∈ paths := by
  by_contra hother
  rcases not_or.1 hother with ⟨hne, hnot⟩
  rw [Table.get?_insert_of_ne _ _ hne, get?_withParents_of_not_mem hnot] at hafter
  exact hafter hbefore

theorem put_appears (hs : s.Rooted) {data : Bytes} (hbefore : s.entries.get? p = none)
    (hafter : (s.put path data).2.entries.get? p ≠ none) : p = path ∨ p ∈ ancestors path := by
  rcases put_cases hs path data with ⟨e, -, hput⟩ | ⟨entry, -, hput⟩ | ⟨-, hput⟩
  · rw [hput] at hafter
    exact absurd hbefore hafter
  · rw [hput, get?_write] at hafter
    split at hafter
    · next hp => exact .inl hp
    · exact absurd hbefore hafter
  · rw [hput] at hafter
    exact eq_or_mem_of_insert hbefore hafter

theorem create_appears (hs : s.Rooted) {stem : String} {data : Bytes} {owner : Option SessionId}
    (hbefore : s.entries.get? p = none)
    (hafter : (s.createSequential stem data owner).2.entries.get? p ≠ none) :
    ∃ parent, parent? stem = some parent ∧ (p = s.nextPath parent stem ∨ p ∈ ancestors stem) := by
  rcases create_cases hs stem data owner with
    ⟨e, -, hcreate⟩ | ⟨parent, hparent, -, ⟨-, hcreate⟩ | ⟨-, -, hcreate⟩⟩
  · rw [hcreate] at hafter
    exact absurd hbefore hafter
  · rw [hcreate] at hafter
    exact absurd hbefore hafter
  · rw [hcreate] at hafter
    exact ⟨parent, hparent, eq_or_mem_of_insert hbefore hafter⟩

theorem get?_setData_of_absent {data : Bytes} (hbefore : s.entries.get? p = none) :
    (s.setData path data).2.entries.get? p = none := by
  rcases setData_cases s path data with ⟨e, -, hset⟩ | ⟨entry, hentry, hset⟩
  · rw [hset]
    exact hbefore
  · rw [hset, get?_write]
    split
    · next hp =>
        rw [hp, hentry] at hbefore
        cases hbefore
    · exact hbefore

/-! ## Entries that stay -/

/-- Every entry stays, though its data may be written. -/
def Keeps (s s' : Store) : Prop := ∀ p, s.entries.get? p ≠ none → s'.entries.get? p ≠ none

theorem write_keeps (s : Store) (path : String) (entry : Entry) (event : WatchEvent) :
    s.Keeps (s.write path entry event) := by
  intro p hp
  rw [get?_write]
  split
  · exact nofun
  · exact hp

theorem withParents_keeps (s : Store) (paths : List String) : s.Keeps (s.withParents paths) := by
  intro p hp
  rw [get?_withParents]
  intro hnone
  exact hp (Option.or_eq_none_iff.1 hnone).1

theorem put_keeps (hs : s.Rooted) (path : String) (data : Bytes) : s.Keeps (s.put path data).2 := by
  rcases put_cases hs path data with ⟨e, -, hput⟩ | ⟨entry, -, hput⟩ | ⟨-, hput⟩
  · rw [hput]
    exact fun p hp => hp
  · rw [hput]
    exact s.write_keeps _ _ _
  · rw [hput]
    exact fun p hp => write_keeps _ _ _ _ p (s.withParents_keeps _ p hp)

theorem setData_keeps (s : Store) (path : String) (data : Bytes) :
    s.Keeps (s.setData path data).2 := by
  rcases setData_cases s path data with ⟨e, -, hset⟩ | ⟨entry, -, hset⟩
  · rw [hset]
    exact fun p hp => hp
  · rw [hset]
    exact s.write_keeps _ _ _

theorem create_keeps (hs : s.Rooted) (stem : String) (data : Bytes) (owner : Option SessionId) :
    s.Keeps (s.createSequential stem data owner).2 := by
  rcases create_cases hs stem data owner with
    ⟨e, -, hcreate⟩ | ⟨parent, -, -, ⟨-, hcreate⟩ | ⟨-, -, hcreate⟩⟩
  · rw [hcreate]
    exact fun p hp => hp
  · rw [hcreate]
    exact fun p hp => hp
  · rw [hcreate]
    exact fun p hp => write_keeps _ _ _ _ p (s.withParents_keeps _ p hp)

/-! ## Entries that go -/

theorem get?_delete_of_ne (s : Store) (hne : p ≠ path) :
    (s.delete path).2.entries.get? p = s.entries.get? p := by
  rcases delete_cases s path with ⟨e, -, hdelete⟩ | ⟨-, hdelete⟩
  · rw [hdelete]
  · rw [hdelete, get?_remove, if_neg hne]

theorem get?_delete_of_absent (hbefore : s.entries.get? p = none) :
    (s.delete path).2.entries.get? p = none := by
  rcases delete_cases s path with ⟨e, -, hdelete⟩ | ⟨-, hdelete⟩
  · rw [hdelete]
    exact hbefore
  · rw [hdelete, get?_remove, hbefore, ite_self]

/-- What is gone after sessions have ended belonged to one of them. -/
theorem SessionsEnded.owner {ids : List SessionId} (h : SessionsEnded ids s s')
    (hentry : s.entries.get? p = some entry) (hafter : s'.entries.get? p = none) :
    ∃ id ∈ ids, entry.owner = some id := by
  by_contra hnone
  have hstays : s'.entries.get? p = some entry := by
    refine (h.entries p entry).2 ⟨hentry, fun id hid howner => ?_⟩
    exact hnone ⟨id, hid, howner⟩
  rw [hafter] at hstays
  cases hstays

theorem SessionsEnded.absent {ids : List SessionId} (h : SessionsEnded ids s s')
    (hbefore : s.entries.get? p = none) : s'.entries.get? p = none := by
  cases hafter : s'.entries.get? p with
  | none => rfl
  | some entry =>
      have hold := ((h.entries p entry).1 hafter).1
      rw [hbefore] at hold
      cases hold

end Store

/-! ## Actions -/

namespace Service

variable {s : Service} {a : ServiceAction} {p : String} {event : WatchEvent}

theorem causes_of_written? (h : s.written? a = some p) : s.Causes p a (.dataChanged p) := by
  cases a with
  | put path data =>
      rcases Option.map_eq_some_iff.1 h with ⟨_, -, rfl⟩
      exact .overwrite
  | setData path data =>
      rcases Option.map_eq_some_iff.1 h with ⟨_, -, rfl⟩
      exact .setData
  | _ => cases h

/-- An action causes what it makes of an entry if it causes entries to come and to go. -/
theorem causes_of_lookups
    (happears : s.store.entries.get? p = none → (s.act a).store.entries.get? p ≠ none →
      s.Causes p a (.created p))
    (hgoes : ∀ entry, s.store.entries.get? p = some entry →
      (s.act a).store.entries.get? p = none → s.Causes p a (.deleted p))
    (hchange : s.change? a p = some event) : s.Causes p a event := by
  rcases Store.change?_cases hchange with
    ⟨rfl, hbefore, entry, hafter⟩ | ⟨rfl, hafter, entry, hbefore⟩ | ⟨rfl, hwritten⟩
  · exact happears hbefore (by simp [hafter])
  · exact hgoes entry hbefore hafter
  · exact causes_of_written? hwritten

theorem causes_of_entries_eq (h : (s.act a).store.entries = s.store.entries)
    (hchange : s.change? a p = some event) : s.Causes p a event := by
  refine causes_of_lookups ?_ ?_ hchange
  · intro hbefore hafter
    rw [h] at hafter
    exact absurd hbefore hafter
  · intro entry hbefore hafter
    rw [h, hbefore] at hafter
    cases hafter

theorem causes_of_call (hs : s.store.Rooted) {id : SessionId} {c : Call}
    (hchange : s.change? (.call id c) p = some event) : s.Causes p (.call id c) event := by
  by_cases hopen : s.store.isSessionOpen id = true
  · have hact : (s.act (.call id c)).store = (Session.answer id s.store c).2 :=
      congrArg (·.2.store) (perform_of_open hopen c)
    cases c with
    | create stem data =>
        refine causes_of_lookups ?_ ?_ hchange
        · intro hbefore hafter
          rw [hact] at hafter
          rcases Store.create_appears hs hbefore hafter with ⟨parent, hparent, hpath⟩
          exact .create hparent hpath
        · intro entry hbefore hafter
          rw [hact] at hafter
          have hkept := Store.create_keeps hs stem data (some id) p (by simp [hbefore])
          exact absurd hafter hkept
    | delete path =>
        refine causes_of_lookups ?_ ?_ hchange
        · intro hbefore hafter
          rw [hact] at hafter
          exact absurd (Store.get?_delete_of_absent hbefore) hafter
        · intro entry hbefore hafter
          by_cases hp : p = path
          · rw [hp]
            exact .deleteThrough
          · rw [hact] at hafter
            rw [← s.store.get?_delete_of_ne hp] at hbefore
            exact absurd (hbefore.symm.trans hafter) nofun
    | read path => exact causes_of_entries_eq (by rw [hact]; rfl) hchange
    | isPresent path => exact causes_of_entries_eq (by rw [hact]; rfl) hchange
    | acquire path =>
        refine causes_of_entries_eq ?_ hchange
        rw [hact]
        exact (s.store.acquire_change path id).entries
    | release t =>
        refine causes_of_entries_eq ?_ hchange
        rw [hact]
        exact (s.store.release_change t).entries
    | watch path =>
        refine causes_of_entries_eq ?_ hchange
        rw [hact]
        exact (s.store.watch_lockChange path).entries
  · have hact : s.act (.call id c) = s := congrArg Prod.snd (perform_of_closed hopen c)
    exact causes_of_entries_eq (by rw [hact]) hchange

theorem causes_of_ended {ids : List SessionId}
    (hended : s.store.SessionsEnded ids (s.act a).store)
    (hgoes : ∀ id ∈ ids, ∀ entry, s.store.entries.get? p = some entry → entry.owner = some id →
      s.Causes p a (.deleted p))
    (hchange : s.change? a p = some event) : s.Causes p a event := by
  refine causes_of_lookups ?_ ?_ hchange
  · intro hbefore hafter
    exact absurd (hended.absent hbefore) hafter
  · intro entry hbefore hafter
    rcases hended.owner hbefore hafter with ⟨id, hid, howner⟩
    exact hgoes id hid entry hbefore howner

/-- Only these operations change an entry. -/
theorem causes_of_change? (s : Service) (hlocks : s.store.LocksSound)
    (hentries : s.store.EntriesSound) (ha : a.isSingle = true)
    (hchange : s.change? a p = some event) : s.Causes p a event := by
  -- the store is named apart from its clock, so that no clock is ever compared
  rcases s with ⟨store, clock, timeout⟩
  cases a with
  | openSession => exact causes_of_entries_eq rfl hchange
  | heartbeat id => exact causes_of_entries_eq (store.heartbeat_entries id clock.now) hchange
  | closeSession id =>
      refine causes_of_ended (Store.closeSession_ended hlocks hentries id) ?_ hchange
      intro j hj entry hentry howner
      rw [List.mem_singleton.1 hj] at howner
      exact .closed hentry howner
  | expire =>
      refine causes_of_ended (Store.closeAll_ended hlocks hentries _) ?_ hchange
      intro id hid entry hentry howner
      exact .expired hid hentry howner
  | advance d => exact causes_of_entries_eq rfl hchange
  | setTimeout d => exact causes_of_entries_eq rfl hchange
  | call id c => exact causes_of_call hentries.rooted hchange
  | put path data =>
      refine causes_of_lookups ?_ ?_ hchange
      · intro hbefore hafter
        exact .put (Store.put_appears hentries.rooted hbefore hafter)
      · intro entry hbefore hafter
        have hkept := Store.put_keeps hentries.rooted path data p (by simp [hbefore])
        exact absurd hafter hkept
  | setData path data =>
      refine causes_of_lookups ?_ ?_ hchange
      · intro hbefore hafter
        exact absurd (Store.get?_setData_of_absent hbefore) hafter
      · intro entry hbefore hafter
        have hkept := store.setData_keeps path data p (by simp [hbefore])
        exact absurd hafter hkept
  | delete path =>
      refine causes_of_lookups ?_ ?_ hchange
      · intro hbefore hafter
        exact absurd (Store.get?_delete_of_absent hbefore) hafter
      · intro entry hbefore hafter
        by_cases hp : p = path
        · rw [hp]
          exact .delete
        · rw [← store.get?_delete_of_ne hp] at hbefore
          exact absurd (hbefore.symm.trans hafter) nofun
  | poll id => exact causes_of_entries_eq rfl hchange
  | dropWatch id => exact causes_of_entries_eq rfl hchange
  | provision scheduler count label => cases ha
  | runOnce scheduler perRequest => cases ha

/-- An operation that is refused makes nothing of any entry. -/
theorem change?_of_refused (hlocks : s.store.LocksSound) (hentries : s.store.EntriesSound)
    {e : StoreError} (he : s.refusal? a = some e) : s.change? a p = none := by
  have hwritten : s.written? a = none := by
    cases a with
    | put path data => exact Option.map_eq_none_iff.2 (StoreError.toOption_eq_none he)
    | setData path data => exact Option.map_eq_none_iff.2 (StoreError.toOption_eq_none he)
    | _ => rfl
  have hsame : (s.act a).store.entries = s.store.entries := by
    generalize hafter : s.act a = after
    have hleaves := Leaves.of_refusal? hlocks.onlyHeld hentries.rooted he
    rw [hafter] at hleaves
    cases hleaves with
    | unchanged hother => rfl
    | numbered hparent hpresent => rfl
  exact Store.change?_of_get?_eq (by rw [hsame]) (by simp [hwritten])

end Service

end FencedPool
