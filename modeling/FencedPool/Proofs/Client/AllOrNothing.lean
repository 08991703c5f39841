import FencedPool.Proofs.Client.Accept

/-!
# AllOrNothing — what accepting a request does to the store

A client that accepts a request ends up with all its nodes or with none.  Either each node is locked
by the handle that was returned for it, or the lock table is as it was before, but for the locks
whose release was refused, and these are reported.  The entry of the request is gone or its deletion
is reported as failed, and nothing else changes.

This file defines `AllOrNothing`, which says this of one call, and proves it of every call, on plain
sessions as well as on recorded ones with failures in force (`accept_all_or_nothing`).
-/

namespace FencedPool

open Exchange

/-- What becomes of the lock table when nodes with given entries are to be locked, from the calls
that were made, the store before and after, and the outcome. -/
structure LocksAllOrNone (c : Client) (entries : List String) (dialogue : List Exchange)
    (before after : Store) (outcome : AcceptOutcome) : Prop where
  accepted : ∀ handles, outcome.result = .ok handles →
    handles.map (·.path) = entries.map c.resolve ∧
      (∀ h ∈ handles, before.grant? h.path = none ∧ after.grant? h.path = some h.lock) ∧
      ∀ p, (∀ h ∈ handles, h.path ≠ p) → after.grant? p = before.grant? p
  refused : ∀ e, outcome.result = .error e → ∀ t,
    after.Holds t ↔ before.Holds t ∨
      t ∈ dialogue.filterMap granted? ∧ ∃ cause, (t, cause) ∈ dialogue.filterMap retained?

/-- What accepting a request whose entry is at a path comes to, from the calls that were made, the
store before and after, and the outcome. -/
structure AllOrNothing (c : Client) (r : NodeRequest) (path : String) (dialogue : List Exchange)
    (before after : Store) (outcome : AcceptOutcome) : Prop where
  locks : LocksAllOrNone c r.allocatedNodes dialogue before after outcome
  report : ∃ deletion,
    outcome.cleanup.failures = (dialogue.filterMap retained?).map .ofRetained ++ deletion ∧
      (deletion = [] ∧ after.entries.get? path = none ∨ ∃ e, deletion = [.delete path e])
  entries : ∀ p, p ≠ path → after.entries.get? p = before.entries.get? p
  sequences : after.sequences = before.sequences
  sessions : after.sessions = before.sessions
  opened : after.opened = before.opened

/-! ## Deleting -/

namespace Store

variable {s : Store} {id : SessionId} {refusal? : Call → Option StoreError} {path : String}

/-- What a deletion leaves behind, when the entry is not said to be absent against the truth. -/
structure Deletion (s : Store) (path : String) (answer : Except StoreError Unit) (s' : Store) :
    Prop where
  change : EntryChange s s'
  sequences : s'.sequences = s.sequences
  others : ∀ p, p ≠ path → s'.entries.get? p = s.entries.get? p
  absent : Client.deletionFailures path answer = [] ∧ s'.entries.get? path = none ∨
    ∃ e, Client.deletionFailures path answer = [.delete path e]

theorem Deletion.of_refused {e : StoreError} (h : ∀ p, e ≠ .noNode p) :
    Deletion s path (.error e) s where
  change := .refl s
  sequences := rfl
  others _ _ := rfl
  absent := by
    refine .inr ⟨e, ?_⟩
    cases e with
    | noNode p => exact absurd rfl (h p)
    | _ => rfl

theorem delete_deletion (s : Store) (path : String) :
    Deletion s path (s.delete path).1 (s.delete path).2 := by
  unfold delete checkingPath
  split
  · split
    · next habsent =>
        exact {
          change := .refl s
          sequences := rfl
          others := fun _ _ => rfl
          absent := .inl ⟨rfl, by simpa [Table.contains] using habsent⟩ }
    · split
      · apply Deletion.of_refused
        intro p hp
        cases hp
      · exact {
          change := s.remove_change path
          sequences := rfl
          others := fun p hp => s.entries.get?_erase_of_ne hp
          absent := .inl ⟨rfl, s.entries.get?_erase_self path⟩ }
  · apply Deletion.of_refused
    intro p hp
    cases hp

theorem respond_deletion (hrefusal : ∀ p, refusal? (.delete path) ≠ some (.noNode p)) :
    Deletion s path (s.respond id refusal? (.delete path)).1
      (s.respond id refusal? (.delete path)).2 := by
  cases hr : refusal? (.delete path) with
  | some e =>
      simp only [respond_of_refused hr]
      exact .of_refused fun p hp => hrefusal p (hr.trans (congrArg some hp))
  | none =>
      simp only [respond_of_passed hr]
      by_cases hopen : s.isSessionOpen id = true
      · simp only [Session.plain_perform_of_open hopen]
        exact s.delete_deletion path
      · simp only [Session.plain_perform_of_closed hopen]
        apply Deletion.of_refused
        intro p hp
        cases hp

end Store

/-! ## Accepting -/

namespace Client

open Procedure Store

variable {c : Client} {r : NodeRequest} {path : String} {dialogue : List Exchange}
  {before after : Store} {id : SessionId} {refusal? : Call → Option StoreError}
  {outcome : AcceptOutcome}

theorem no_releases (h : dialogue.filterMap attempted? = []) :
    dialogue.filterMap released? = [] ∧ dialogue.filterMap retained? = [] := by
  constructor
  · apply List.eq_nil_iff_forall_not_mem.2
    intro t ht
    have hmem := mem_attempted_iff.2 (.inl ht)
    simp only [h] at hmem
    cases hmem
  · apply List.eq_nil_iff_forall_not_mem.2
    rintro ⟨t, e⟩ ht
    have hmem := mem_attempted_iff.2 (.inr ⟨e, ht⟩)
    simp only [h] at hmem
    cases hmem

theorem holds_iff_of_locked (hs : before.LocksSound)
    (hd : Dialogue id refusal? before dialogue after)
    (hattempted : dialogue.filterMap attempted? = []) (t : LockToken) :
    after.Holds t ↔ before.Holds t ∨ t ∈ dialogue.filterMap granted? := by
  simp only [hd.holds_iff hs, (no_releases hattempted).1]
  constructor
  · exact And.left
  · intro h
    exact ⟨h, List.not_mem_nil⟩

/-- When every lock that was granted is attempted to be released, those stay whose release was
refused. -/
theorem holds_iff_of_rolledBack (hs : before.LocksSound)
    (hd : Dialogue id refusal? before dialogue after)
    (hattempted : dialogue.filterMap attempted? = dialogue.filterMap granted?) (t : LockToken) :
    after.Holds t ↔ before.Holds t ∨
      t ∈ dialogue.filterMap granted? ∧ ∃ e, (t, e) ∈ dialogue.filterMap retained? := by
  rcases hd.fresh hs with ⟨hnodup, hfresh⟩
  simp only [hd.holds_iff hs]
  constructor
  · rintro ⟨hold | hgranted, hreleased⟩
    · exact .inl hold
    · rw [← hattempted] at hgranted
      -- its release was attempted, so it was done or refused
      rcases mem_attempted_iff.1 hgranted with hreleased' | hretained
      · exact absurd hreleased' hreleased
      · simp only [hattempted] at hgranted
        exact .inr ⟨hgranted, hretained⟩
  · rintro (hold | ⟨hgranted, e, hretained⟩)
    · refine ⟨.inl hold, ?_⟩
      intro hreleased
      -- only what was granted is released, and that was not in force before
      have hgranted := mem_attempted_iff.2 (.inl hreleased)
      simp only [hattempted] at hgranted
      exact hfresh t hgranted hold
    · refine ⟨.inr hgranted, ?_⟩
      rw [← hattempted] at hnodup
      exact not_mem_released_of_retained hnodup hretained

/-- Locking takes all nodes or none. -/
theorem Locking.locksAllOrNone {entries : List String} (hs : before.LocksSound)
    (hd : Dialogue id refusal? before dialogue after)
    (hlocking : Locking c [] entries dialogue outcome) :
    LocksAllOrNone c entries dialogue before after outcome := by
  cases hlocking with
  | locked handles tokens paths attempted =>
      have hholds := holds_iff_of_locked hs hd attempted
      have htokens : ∀ t, t ∈ dialogue.filterMap granted? ↔ ∃ h ∈ handles, h.lock = t := by
        intro t
        rw [← List.nil_append (dialogue.filterMap granted?), ← List.map_nil, ← tokens]
        exact List.mem_map
      refine ⟨?_, nofun⟩
      intro handles' hok
      obtain rfl : handles = handles' := Except.ok.inj hok
      refine ⟨?_, ?_, ?_⟩
      · calc
          handles.map (·.path) = (handles.map (·.lock)).map (·.path) := by
            simp only [List.map_map]
            rfl
          _ = dialogue.filterMap lockedPath? := by
            simp only [tokens, List.map_nil, List.nil_append, hd.lockedPaths hs]
          _ = entries.map c.resolve := paths
      · intro h hh
        -- each handle has a token that was granted in this call, and none was released
        have hgranted := (htokens h.lock).2 ⟨h, hh, rfl⟩
        have hafter : after.Holds h.lock := (hholds h.lock).2 (.inr hgranted)
        refine ⟨grant?_eq_none_iff.2 ?_, hafter⟩
        intro u hu hold
        -- a token of the same path would still be in force, next to the new one
        rcases ((hholds u).2 (.inl hold)).unique hafter hu with rfl
        exact (hd.fresh hs).2 h.lock hgranted hold
      · intro p hp
        apply grant?_eq_of_holds_iff
        intro t ht
        simp only [hholds t]
        constructor
        · rintro (hold | hgranted)
          · exact hold
          · rcases (htokens t).1 hgranted with ⟨h, hh, rfl⟩
            exact absurd ht (hp h hh)
        · exact .inl
  | rolledBack e report attempted failures =>
      refine ⟨nofun, ?_⟩
      intro _ _ t
      exact holds_iff_of_rolledBack hs hd attempted t

theorem Locking.failures_eq {entries : List String}
    (hlocking : Locking c [] entries dialogue outcome) :
    outcome.cleanup.failures = (dialogue.filterMap retained?).map .ofRetained := by
  cases hlocking with
  | locked handles tokens paths attempted => simp only [(no_releases attempted).2, List.map_nil]
  | rolledBack e report attempted failures => exact failures

/-- Accepting takes all nodes or none, whatever the store is like and whatever it refuses. -/
theorem allOrNothing_of_gives (hs : before.LocksSound) (hplaced : r.path = some path)
    (hgives : (c.accept r).Gives dialogue outcome)
    (hd : Dialogue id refusal? before dialogue after)
    (hrefusal : ∀ p, refusal? (.delete path) ≠ some (.noNode p)) :
    AllOrNothing c r path dialogue before after outcome := by
  -- the dialogue is that of locking and a deletion, with a store in the middle
  rcases accept_gives hplaced hgives with
    ⟨first, answer, locking, rfl, hkeeps, hlocking, hresult, hfailures⟩
  rcases dialogue_append.1 hd with ⟨mid, hfirst, hlast⟩
  have hchange : LockChange before mid := hfirst.change hkeeps
  have hlocks := hlocking.locksAllOrNone hs hfirst
  have hdeletion : Deletion mid path answer after := by
    have hanswer : answer = (mid.respond id refusal? (.delete path)).1 := hlast.1
    have hafter : after = (mid.respond id refusal? (.delete path)).2 := hlast.2
    simp only [hanswer, hafter]
    exact respond_deletion hrefusal
  have hholds := holds_congr hdeletion.change.locks
  -- the deletion neither grants nor keeps a lock
  have hgranted : (first ++ [(⟨.delete path, answer⟩ : Exchange)]).filterMap granted? =
      first.filterMap granted? := by
    simp only [List.filterMap_append]
    exact List.append_nil _
  have hretained : (first ++ [(⟨.delete path, answer⟩ : Exchange)]).filterMap retained? =
      first.filterMap retained? := by
    simp only [List.filterMap_append]
    exact List.append_nil _
  exact {
    locks := {
      accepted := by
        simp only [hresult, grant?_congr hdeletion.change.locks]
        exact hlocks.accepted
      refused := by
        simp only [hresult, hgranted, hretained]
        intro e he t
        simp only [hholds t]
        exact hlocks.refused e he t }
    report := by
      refine ⟨deletionFailures path answer, ?_, hdeletion.absent⟩
      simp only [hfailures, hretained, hlocking.failures_eq]
    entries := by
      intro p hp
      calc after.entries.get? p
          = mid.entries.get? p := hdeletion.others p hp
        _ = before.entries.get? p := by simp only [hchange.entries]
    sequences := by
      calc after.sequences
          = mid.sequences := hdeletion.sequences
        _ = before.sequences := hchange.sequences
    sessions := by
      calc after.sessions
          = mid.sessions := hdeletion.change.sessions
        _ = before.sessions := hchange.sessions
    opened := by
      calc after.opened
          = mid.opened := hdeletion.change.opened
        _ = before.opened := hchange.opened }

end Client

/-- Whether accepting a request on a session, whose state has a store in it, is all or nothing. -/
def Session.AcceptsAllOrNothing {σ : Type} (session : Session σ) (store : σ → Store) (c : Client)
    (r : NodeRequest) (path : String) (s : σ) : Prop :=
  AllOrNothing c r path ((c.accept r).exchanges session s) (store s)
    (store ((c.accept r).run session s).state) ((c.accept r).run session s).answer

theorem Client.allOrNothing_plain (c : Client) (id : SessionId) {r : NodeRequest} {path : String}
    {s : Store} (hs : s.LocksSound) (hplaced : r.path = some path) :
    (Session.plain id).AcceptsAllOrNothing (fun s => s) c r path s := by
  have hrefusal : ∀ p, (none : Option StoreError) ≠ some (.noNode p) := by
    intro p hp
    cases hp
  exact allOrNothing_of_gives hs hplaced (Procedure.gives_run _ _ _)
    (Procedure.dialogue_plain id (c.accept r) s) hrefusal

/-- In every store that a run leads to, whoever accepts a placed request gets all its nodes or none,
over a plain session as well as over one on which calls fail, unless the entry of the request is
said to be absent against the truth. -/
theorem accept_all_or_nothing (c : Client) (r : NodeRequest) (path : String)
    (hplaced : r.path = some path) (id : SessionId) (s : Store) (hs : s.Reachable) :
    (Session.plain id).AcceptsAllOrNothing (fun s => s) c r path s ∧
      ∀ recorder : Recorder, (∀ p, recorder.failure? (.delete path) ≠ some (.noNode p)) →
        (Session.recorded (.plain id)).AcceptsAllOrNothing Prod.snd c r path (recorder, s) := by
  constructor
  · exact c.allOrNothing_plain id hs.locksSound hplaced
  · intro recorder hrecorder
    exact Client.allOrNothing_of_gives hs.locksSound hplaced (Procedure.gives_run _ _ _)
      (Procedure.dialogue_recorded id _ recorder s) hrecorder

/-- Two nodes of which a second session holds the latter. -/
def contended : List ServiceAction :=
  [.openSession, .openSession, .put "/nodepool/nodes/1" [0x7B, 0x7D],
    .put "/nodepool/nodes/2" [0x7B, 0x7D], .call ⟨2⟩ (.acquire "/nodepool/nodes/2")]

def Client.byDefault : Client := ⟨{}, by decide⟩

def NodeRequest.ofTwoNodes : NodeRequest :=
  ((NodeRequest.new "label" "consumer").withAllocatedNodes ["1", "2"]).placed
    "/nodepool/requests/100-0000000000" "0000000000"

/-- The release of the first node fails. -/
def Recorder.keepingFirst : Recorder :=
  ({} : Recorder).fail .release "/nodepool/nodes/1" (.unavailable "connection loss")

/-- The lock of the first node is taken, cannot be released, and is reported. -/
theorem accept_all_or_nothing_contended :
    let s := ((Service.fresh {} .halfMinute).after contended).store
    let session := Session.recorded (.plain ⟨1⟩)
    let reply := (Client.byDefault.accept .ofTwoNodes).run session (.keepingFirst, s)
    session.AcceptsAllOrNothing Prod.snd .byDefault .ofTwoNodes
        "/nodepool/requests/100-0000000000" (.keepingFirst, s) ∧
      reply.answer.result = .error (.lockUnavailable "/nodepool/nodes/2" ⟨2⟩) ∧
      reply.answer.cleanup.failures =
        [.release "/nodepool/nodes/1" (.unavailable "connection loss")] ∧
      reply.state.2.grant? "/nodepool/nodes/1" = some ⟨"/nodepool/nodes/1", ⟨1⟩, 2⟩ :=
  ⟨(accept_all_or_nothing .byDefault .ofTwoNodes "/nodepool/requests/100-0000000000" rfl ⟨1⟩ _
      ⟨{}, .halfMinute, contended, rfl⟩).2 .keepingFirst (fun p h => by cases h),
    by decide, by decide, by decide⟩

end FencedPool
