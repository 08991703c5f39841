import FencedPool.Proofs.Client.Release
import FencedPool.Proofs.Simulation.Steps
import FencedPool.Proofs.Simulation.Stock

/-!
# Consuming — what is left of a request when its own session accepts it

The entry of a request belongs to a session, so nothing stands below it and it can always be
deleted.  On an open session every lock that is given back was in force.  So whatever comes of the
nodes, the entry is gone afterwards and no failure is reported.  The handles of an accepted request
can all be released.

The main statements are `Client.accept_consumes` and `Simulation.succeeds_releaseAll`.
-/

namespace FencedPool

open FencedPool.Path

namespace Store

variable {s : Store} {path : String} {id : SessionId}

/-- The entry of a session can be deleted, since nothing stands below it. -/
theorem delete_of_owner (hs : s.Rooted) {entry : Entry}
    (hentry : s.entries.get? path = some entry) (howner : entry.owner = some id) :
    s.delete path = (.ok (), s.remove path) := by
  have hpath := hs.paths path entry hentry
  have hpresent : s.entries.contains path = true := contains_iff.2 ⟨entry, hentry⟩
  have hnone : ¬ s.hasDescendant path = true := by
    rw [hasDescendant_iff hpath]
    rintro ⟨below, hbelow, habove⟩
    exact hs.not_isAbove_of_owner hentry howner hbelow habove
  unfold delete checkingPath
  rw [if_pos hpath, if_neg (by simp [hpresent]), if_neg hnone]

theorem isPresent_eq (hpath : isEntryPath path = true) (habsent : s.entries.get? path = none) :
    s.isPresent path = .ok false := by
  unfold isPresent Table.contains
  rw [if_pos hpath, habsent]
  rfl

end Store

namespace Client

open Store Procedure

variable {c : Client} {r : NodeRequest} {path : String} {s : Store} {id : SessionId}

/-- A request whose entry belongs to a session is gone after it has been accepted or refused, and
nothing is reported. -/
theorem accept_consumes (hs : s.Sound) (hopen : s.isSessionOpen id = true)
    (hplaced : r.path = some path) {entry : Entry} {owner : SessionId}
    (hentry : s.entries.get? path = some entry) (howner : entry.owner = some owner) :
    ((c.accept r).run (.plain id) s).answer.cleanup.failures = [] ∧
      ((c.accept r).run (.plain id) s).state.entries.get? path = none := by
  rcases accept_gives hplaced (gives_run (.plain id) (c.accept r) s) with
    ⟨first, answer, locking, hdialogue, hkeeps, hlocking, -, hfailures⟩
  have hrun := dialogue_plain id (c.accept r) s
  rw [hdialogue] at hrun
  rcases dialogue_append.1 hrun with ⟨mid, hfirst, hanswer, hafter⟩
  -- the entry is still there when it is to be deleted
  have hchange : LockChange s mid := hfirst.change hkeeps
  have hrooted : mid.Rooted := (hs.entries.of_change hchange).rooted
  have hdelete : mid.delete path = (.ok (), mid.remove path) :=
    delete_of_owner hrooted (by rw [hchange.entries, hentry]) howner
  have hmid : mid.isSessionOpen id = true :=
    (isSessionOpen_congr hchange.sessions id).trans hopen
  have hrespond : mid.respond id (fun _ => none) (.delete path) = (.ok (), mid.remove path) := by
    rw [respond_of_passed rfl, Session.plain_perform_of_open hmid]
    exact hdelete
  have hdeleted : answer = .ok () := hanswer.trans (congrArg Prod.fst hrespond)
  have hstate : ((c.accept r).run (.plain id) s).state = mid.remove path :=
    Eq.trans hafter (congrArg Prod.snd hrespond)
  refine ⟨?_, ?_⟩
  · -- a lock that was kept would be reported, but the deletion is all that is
    rcases accept_plain_answer c id hs.locks hplaced with ⟨-, answer', hreport⟩
    rw [hdeleted, hlocking.failures_eq] at hfailures
    change _ = _ ++ [] at hfailures
    rw [List.append_nil] at hfailures
    cases hretained : first.filterMap Exchange.retained? with
    | nil =>
        rw [hfailures, hretained]
        rfl
    | cons retained more =>
        have hmem : CleanupError.ofRetained retained ∈ deletionFailures path answer' := by
          rw [← hreport, hfailures, hretained]
          exact List.mem_cons_self
        exact absurd hmem release_not_mem_deletionFailures
  · rw [hstate]
    exact mid.entries.get?_erase_self path

theorem nodeExists_run (hopen : s.isSessionOpen id = true) (hpath : isEntryPath path = true)
    (habsent : s.entries.get? path = none) :
    ((nodeExists path).run (.plain id) s).answer = .ok false := by
  unfold nodeExists
  rw [answer_ask_bind, Session.plain_perform_of_open hopen]
  simp only [Session.answer]
  rw [isPresent_eq hpath habsent]
  rfl

end Client

namespace Simulation

variable {s : Store} {id : SessionId}

/-- Handles whose locks are in force can be released one after another. -/
theorem succeeds_releaseAll {handles : List NodeHandle} (hs : s.LocksSound)
    (hopen : s.isSessionOpen id = true) (hheld : ∀ h ∈ handles, s.Holds h.lock)
    (hdistinct : (handles.map (·.path)).Nodup) :
    Succeeds (releaseAll (.plain id) handles) s fun _ after =>
      after.entries = s.entries ∧ after.sessions = s.sessions := by
  induction handles generalizing s with
  | nil => exact ⟨(), s, rfl, rfl, rfl⟩
  | cons h rest ih =>
      rcases List.forall_mem_cons.1 hheld with ⟨hlock, hrest⟩
      rcases List.nodup_cons.1 hdistinct with ⟨hnot, hdistinct⟩
      rcases Client.release_run hs.onlyHeld hopen hlock with ⟨hanswer, hstate⟩
      have hsound : (s.freeing h.path).LocksSound := (Store.freeing_lockStep hs hlock).locksSound hs
      -- the other locks stay in force, since they are for other nodes
      have hlater : ∀ h' ∈ rest, (s.freeing h.path).Holds h'.lock := fun h' hh' =>
        (Store.freeing_holds_iff hs.onlyHeld h.path h'.lock).2
          ⟨hrest h' hh', fun hsame => hnot (List.mem_map.2 ⟨h', hh', hsame⟩)⟩
      unfold releaseAll
      refine (succeeds_onSession (.plain id) (Client.release h) s).bind ?_
      rintro answer after ⟨rfl, rfl⟩
      refine (succeeds_orStop hanswer).bind ?_
      rintro _ after ⟨-, rfl⟩
      rw [hstate]
      exact ih hsound hopen hlater hdistinct

end Simulation

end FencedPool
