import Mathlib.Data.List.Nodup
import FencedPool.Proofs.Store.Fencing
import FencedPool.Proofs.Store.Owners

/-!
# SessionEnd — a session that ends takes with it what it owns, for good

The number of a session is the count of sessions opened until then, so it never comes again, and a
session that has ended stays so.  What ended sessions owned is looked up exactly: an entry or a lock
is left afterwards if and only if it was there before and belongs to none of them.

This file defines:

* `Store.SessionsEnded` — what is left when sessions end;
* `Service.openingsAlong` — the sessions that a run opens;
* `Service.OwnersLive` — what is known of sessions and of what they own after a run.

The main statement is `owners_live`.
-/

namespace FencedPool

namespace Store

variable {s s' s'' : Store} {id : SessionId}

/-- What is left of a store when sessions end: all but their entries and locks. -/
structure SessionsEnded (ids : List SessionId) (s s' : Store) : Prop where
  entries : ∀ path entry, s'.entries.get? path = some entry ↔
    s.entries.get? path = some entry ∧ ∀ id ∈ ids, entry.owner ≠ some id
  locks : ∀ path lock, s'.locks.get? path = some lock ↔
    s.locks.get? path = some lock ∧ ∀ id ∈ ids, lock.holder? ≠ some id
  sessions : ∀ id record, s'.sessions.get? id = some record ↔
    s.sessions.get? id = some record ∧ id ∉ ids
  sequences : s'.sequences = s.sequences
  opened : s'.opened = s.opened
  grants : s'.grants = s.grants

namespace SessionsEnded

theorem nil (s : Store) : SessionsEnded [] s s where
  entries path entry := by simp
  locks path lock := by simp
  sessions id record := by simp
  sequences := rfl
  opened := rfl
  grants := rfl

theorem append {first more : List SessionId} (h₁ : SessionsEnded first s s')
    (h₂ : SessionsEnded more s' s'') : SessionsEnded (first ++ more) s s'' where
  entries path entry := by
    rw [h₂.entries, h₁.entries, List.forall_mem_append, and_assoc]
  locks path lock := by
    rw [h₂.locks, h₁.locks, List.forall_mem_append, and_assoc]
  sessions id record := by
    rw [h₂.sessions, h₁.sessions, List.mem_append, not_or, and_assoc]
  sequences := h₂.sequences.trans h₁.sequences
  opened := h₂.opened.trans h₁.opened
  grants := h₂.grants.trans h₁.grants

end SessionsEnded

/-! ## What the end of a session leaves -/

theorem removeAll_sequences (s : Store) (paths : List String) :
    (paths.foldl remove s).sequences = s.sequences := by
  induction paths generalizing s with
  | nil => rfl
  | cons path rest ih => exact ih (s.remove path)

theorem get?_closeSession_locks (hs : s.OnlyHeld) (hopen : s.isSessionOpen id = true)
    (path : String) (lock : PathLock) :
    (s.closeSession id).locks.get? path = some lock ↔
      s.locks.get? path = some lock ∧ lock.holder? ≠ some id := by
  let ended : Store := { s with sessions := s.sessions.erase id }
  let left : Store := (ended.ownedBy id).foldl remove ended
  have hlocks : left.locks = s.locks := (ended.removeAll_change _).locks
  have hleft : left.OnlyHeld := by
    unfold OnlyHeld
    rw [hlocks]
    exact hs
  have hclosed : (s.closeSession id).locks = left.locksWithout id := by
    unfold closeSession
    rw [if_pos hopen]
  rw [hclosed, get?_locksWithout hleft, hlocks]

/-- Nothing belongs to a session that is not open. -/
theorem sessionsEnded_of_closed (hlocks : s.LocksSound) (hentries : s.EntriesSound)
    (hclosed : ¬ s.isSessionOpen id = true) : SessionsEnded [id] s s where
  entries path entry := by
    refine ⟨fun he => ⟨he, fun j hj howner => ?_⟩, fun he => he.1⟩
    rw [List.mem_singleton.1 hj] at howner
    exact hclosed (hentries.owned path entry id he howner)
  locks path lock := by
    refine ⟨fun hl => ⟨hl, fun j hj hholder => ?_⟩, fun hl => hl.1⟩
    rw [List.mem_singleton.1 hj] at hholder
    rcases hlocks.onlyHeld path lock hl with ⟨holder, fence, rfl⟩
    obtain rfl : holder = id := Option.some.inj hholder
    exact hclosed (hlocks.live ⟨path, holder, fence⟩ (hlocks.onlyHeld.holds_iff.2 hl))
  sessions j record := by
    refine ⟨fun hj => ⟨hj, fun hid => ?_⟩, fun hj => hj.1⟩
    rw [List.mem_singleton.1 hid] at hj
    exact hclosed (Option.isSome_iff_exists.2 ⟨record, hj⟩)
  sequences := rfl
  opened := rfl
  grants := rfl

theorem closeSession_opened (s : Store) (id : SessionId) :
    (s.closeSession id).opened = s.opened := by
  unfold closeSession
  split
  · exact (removeAll_change _ _).opened
  · rfl

theorem closeAll_opened (s : Store) (ids : List SessionId) :
    (ids.foldl closeSession s).opened = s.opened := by
  induction ids generalizing s with
  | nil => rfl
  | cons id rest ih => exact (ih (s.closeSession id)).trans (s.closeSession_opened id)

/-- A session ends with exactly its entries and its locks. -/
theorem closeSession_ended (hlocks : s.LocksSound) (hentries : s.EntriesSound) (id : SessionId) :
    SessionsEnded [id] s (s.closeSession id) := by
  by_cases hopen : s.isSessionOpen id = true
  · let ended : Store := { s with sessions := s.sessions.erase id }
    have hclose : s.closeSession id =
        { (ended.ownedBy id).foldl remove ended with locks := (s.closeSession id).locks } := by
      unfold closeSession
      rw [if_pos hopen]
    constructor
    · intro path entry
      rw [get?_closeSession hopen]
      simp
    · intro path lock
      rw [get?_closeSession_locks hlocks.onlyHeld hopen]
      simp
    · intro j record
      rw [closeSession_sessions hopen, Table.get?_erase]
      by_cases hj : j = id <;> simp [hj]
    · rw [hclose]
      exact removeAll_sequences _ _
    · exact s.closeSession_opened id
    · rw [hclose]
      exact (removeAll_change _ _).grants
  · rw [closeSession_of_closed hopen]
    exact sessionsEnded_of_closed hlocks hentries hopen

theorem closeAll_ended (hlocks : s.LocksSound) (hentries : s.EntriesSound)
    (ids : List SessionId) : SessionsEnded ids s (ids.foldl closeSession s) := by
  induction ids generalizing s with
  | nil => exact .nil s
  | cons id rest ih =>
      have hfirst := closeSession_ended hlocks hentries id
      have hrest := ih ((closeSession_lockStep hlocks id).locksSound hlocks)
        (closeSession_entriesSound hentries id)
      exact hfirst.append hrest

end Store

/-! ## Numbers of sessions -/

theorem Session.answer_opened (id : SessionId) (s : Store) (c : Call) :
    (answer id s c).2.opened = s.opened := by
  cases c with
  | create stem data => exact (s.createSequential_change stem data (some id)).opened
  | read path => rfl
  | isPresent path => rfl
  | delete path => exact (s.delete_change path).opened
  | acquire path => exact (s.acquire_change path id).opened
  | release t => exact (s.release_change t).opened
  | watch path => exact (s.watch_change path).opened

namespace Service

variable {s : Service} {id : SessionId}

/-- The session that an action opens. -/
def opened? (s : Service) : ServiceAction → Option SessionId
  | .openSession => some s.openSession.answer
  | _ => none

/-- The sessions that a run opens, in the order of the openings. -/
def openingsAlong (s : Service) : List ServiceAction → List SessionId
  | [] => []
  | a :: rest => (s.opened? a).toList ++ (s.act a).openingsAlong rest

/-- Only opening a session raises the count of sessions. -/
theorem act_opened (s : Service) (a : ServiceAction) :
    (s.act a).store.opened = s.store.opened + (s.opened? a).toList.length := by
  -- the store is named apart from its clock, so that no clock is ever compared
  rcases s with ⟨store, clock, timeout⟩
  cases a with
  | openSession => rfl
  | heartbeat id =>
      unfold act heartbeat Store.heartbeat
      dsimp only
      split <;> rfl
  | closeSession id => exact store.closeSession_opened id
  | expire => exact store.closeAll_opened _
  | advance d => rfl
  | setTimeout d => rfl
  | call id c =>
      unfold act perform
      by_cases hopen : store.isSessionOpen id = true
      · simp only [Session.plain_perform_of_open hopen]
        exact Session.answer_opened id store c
      · simp only [Session.plain_perform_of_closed hopen]
        rfl
  | put path data => exact (store.put_change path data).opened
  | setData path data => exact (store.setData_change path data).opened
  | delete path => exact (store.delete_change path).opened
  | poll id => rfl
  | dropWatch id => rfl
  | provision scheduler count label => exact (provision_change store scheduler count label).opened
  | runOnce scheduler perRequest => exact (runOnce_change store scheduler perRequest).opened

theorem after_opened (s : Service) (actions : List ServiceAction) :
    (s.after actions).store.opened = s.store.opened + (s.openingsAlong actions).length := by
  induction actions generalizing s with
  | nil => rfl
  | cons a rest ih =>
      calc ((s.act a).after rest).store.opened
          = (s.act a).store.opened + ((s.act a).openingsAlong rest).length := ih (s.act a)
        _ = s.store.opened + ((s.opened? a).toList ++ (s.act a).openingsAlong rest).length := by
          rw [act_opened, List.length_append, Nat.add_assoc]

theorem opened?_number (s : Service) (a : ServiceAction) :
    (s.opened? a).toList.map (·.number) =
      List.range' (s.store.opened + 1) (s.opened? a).toList.length := by
  cases a <;> rfl

/-- The numbers of the sessions that a run opens follow the count of sessions, without a gap. -/
theorem numbers_openingsAlong (s : Service) (actions : List ServiceAction) :
    (s.openingsAlong actions).map (·.number) =
      List.range' (s.store.opened + 1) (s.openingsAlong actions).length := by
  induction actions generalizing s with
  | nil => rfl
  | cons a rest ih =>
      have hnext : (s.act a).store.opened + 1 =
          s.store.opened + 1 + (s.opened? a).toList.length := by
        have hcount := s.act_opened a
        omega
      rw [openingsAlong, List.map_append, opened?_number, ih, hnext, List.length_append,
        List.range'_append_1]

/-- No session is opened twice. -/
theorem nodup_openingsAlong (s : Service) (actions : List ServiceAction) :
    (s.openingsAlong actions).Nodup := by
  refine List.Nodup.of_map (·.number) ?_
  rw [numbers_openingsAlong]
  exact List.nodup_range'

/-- A run opens the sessions whose numbers it has counted up to. -/
theorem mem_openingsAlong_iff {actions : List ServiceAction} :
    id ∈ s.openingsAlong actions ↔
      s.store.opened < id.number ∧ id.number ≤ (s.after actions).store.opened := by
  have hnumber : id ∈ s.openingsAlong actions ↔
      id.number ∈ (s.openingsAlong actions).map (·.number) := by
    constructor
    · exact List.mem_map_of_mem
    · intro hmem
      rcases List.mem_map.1 hmem with ⟨⟨n⟩, hn, rfl⟩
      exact hn
  rw [hnumber, numbers_openingsAlong, List.mem_range'_1, after_opened]
  omega

/-! ## Sessions that are open or not -/

theorem perform_of_open (hopen : s.store.isSessionOpen id = true) (c : Call) :
    s.perform id c =
      ((Session.answer id s.store c).1, { s with store := (Session.answer id s.store c).2 }) := by
  unfold perform
  simp only [Session.plain_perform_of_open hopen]

theorem perform_of_closed (hclosed : ¬ s.store.isSessionOpen id = true) (c : Call) :
    s.perform id c = (.error (.sessionExpired id), s) := by
  unfold perform
  simp only [Session.plain_perform_of_closed hclosed]

theorem heartbeat_of_closed (hclosed : ¬ s.store.isSessionOpen id = true) :
    s.heartbeat id = (.error (.sessionExpired id), s) := by
  have hnone : s.store.sessions.get? id = none := by
    simpa [Store.isSessionOpen, Table.contains] using hclosed
  unfold heartbeat Store.heartbeat
  rw [hnone]

theorem closeSession_of_closed (hclosed : ¬ s.store.isSessionOpen id = true) :
    (s.closeSession id).state = s := by
  unfold closeSession
  rw [Store.closeSession_of_closed hclosed]

/-- Whether a session is spent: whatever comes through it is refused and changes nothing. -/
def Spent (s : Service) (id : SessionId) : Prop :=
  (∀ c, s.perform id c = (.error (.sessionExpired id), s)) ∧
    s.heartbeat id = (.error (.sessionExpired id), s) ∧ (s.closeSession id).state = s

theorem spent_of_closed (hclosed : ¬ s.store.isSessionOpen id = true) : s.Spent id :=
  ⟨perform_of_closed hclosed, heartbeat_of_closed hclosed, closeSession_of_closed hclosed⟩

/-- What is known of the sessions and of what they own after a run from an empty store. -/
structure OwnersLive (start : Service) (actions : List ServiceAction) : Prop where
  entries : ∀ path entry id, (start.after actions).store.entries.get? path = some entry →
    entry.owner = some id → (start.after actions).store.isSessionOpen id = true
  locks : ∀ path lock, (start.after actions).store.locks.get? path = some lock →
    ∃ holder fence, lock = ⟨path, .held holder fence⟩ ∧
      (start.after actions).store.isSessionOpen holder = true
  /-- no session is opened twice, and those that are open have been opened -/
  openings : (start.openingsAlong actions).Nodup ∧
    ∀ id, (start.after actions).store.isSessionOpen id = true → id ∈ start.openingsAlong actions
  closing : ∀ id, (start.after actions).store.SessionsEnded [id]
    ((start.after actions).closeSession id).state.store
  expiring : (start.after actions).store.SessionsEnded (start.after actions).expire.answer
    (start.after actions).expire.state.store
  /-- a session that has ended stays spent, however the run goes on -/
  ended : ∀ id ∈ start.openingsAlong actions,
    ¬ (start.after actions).store.isSessionOpen id = true →
      ∀ rest, ((start.after actions).after rest).Spent id

end Service

/-- In every run owners are open sessions, and what a session owns ends with it, for good. -/
theorem owners_live (clock : Clock) (timeout : Duration) (actions : List ServiceAction) :
    (Service.fresh clock timeout).OwnersLive actions := by
  let start := Service.fresh clock timeout
  have hreachable : (start.after actions).store.Reachable := ⟨clock, timeout, actions, rfl⟩
  have hlocks := hreachable.locksSound
  have hentries := hreachable.entriesSound
  constructor
  · exact hentries.owned
  · intro path lock hlock
    rcases hlocks.onlyHeld path lock hlock with ⟨holder, fence, rfl⟩
    have hold := hlocks.onlyHeld.holds_iff (t := ⟨path, holder, fence⟩)
    exact ⟨holder, fence, rfl, hlocks.live _ (hold.2 hlock)⟩
  · refine ⟨start.nodup_openingsAlong actions, fun id hopen => ?_⟩
    refine Service.mem_openingsAlong_iff.2 ⟨?_, hlocks.numbered id hopen⟩
    -- no session is open at the start
    rcases Service.reopened_after Store.locksSound_empty hopen with hbefore | hlt
    · cases hbefore
    · exact hlt
  · exact Store.closeSession_ended hlocks hentries
  · exact Store.closeAll_ended hlocks hentries _
  · intro id hid hclosed rest
    refine Service.spent_of_closed fun hopen => hclosed ?_
    exact Service.isSessionOpen_of_after hlocks (Service.mem_openingsAlong_iff.1 hid).2 hopen

end FencedPool
