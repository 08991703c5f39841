import FencedPool.Proofs.Client.Reuse
import FencedPool.Proofs.Store.Entries

/-!
# Acceptance — exactly when a request is accepted, and which error is given otherwise

While a request is accepted the lock table changes, so that a node which is named twice, perhaps in
two spellings, is found locked the second time.  What comes of it can all the same be read off the
store before the call.  The nodes have to be different, and each has to be an entry without a lock
and with readable metadata.  Otherwise the first entry in the way decides about the error.

This file defines:

* `Store.FreeNode` — a node that can be accepted;
* `Store.Offends` and `Store.FirstOffence` — what stands in the way of accepting nodes;
* `Store.takeAll` — what locking and reading nodes one after another gives;
* `Store.TakesExactly` — how a result is determined by the store.

The main statement is `accept_exactly`.
-/

namespace FencedPool

open Procedure

/-! ## What is said about the store before the call -/

namespace Store

/-- A node that can be accepted: an entry with readable metadata that carries no lock. -/
structure FreeNode (s : Store) (path : String) (metadata : NodeMetadata) : Prop where
  isEntryPath : isEntryPath path = true
  entry : ∃ entry, s.entries.get? path = some entry ∧
    NodeMetadata.decode path entry.data = .ok metadata
  free : s.lockHolder? path = none

/-- Who holds the lock of a path once a session has locked given paths. -/
def holderAfter (s : Store) (id : SessionId) (taken : List String) (path : String) :
    Option SessionId :=
  if path ∈ taken then some id else s.lockHolder? path

/-- What stands in the way of accepting a node after others have been taken.  Each reason is looked
for only when those before it do not apply. -/
inductive Offends (s : Store) (id : SessionId) (taken : List String) (path : String) :
    PoolError → Prop
  | malformed (hpath : isEntryPath path = false) :
      Offends s id taken path (.store (.badPath path))
  | absent (hpath : isEntryPath path = true) (habsent : s.entries.get? path = none) :
      Offends s id taken path (.store (.noNode path))
  | locked {entry : Entry} {holder : SessionId} (hpath : isEntryPath path = true)
      (hentry : s.entries.get? path = some entry)
      (hholder : s.holderAfter id taken path = some holder) :
      Offends s id taken path (.lockUnavailable path holder)
  | undecodable {entry : Entry} {e : MalformedRecord} (hpath : isEntryPath path = true)
      (hentry : s.entries.get? path = some entry) (hfree : s.holderAfter id taken path = none)
      (hdecode : NodeMetadata.decode path entry.data = .error e) :
      Offends s id taken path (.malformedRecord e)

/-- The error is that of the first node in the way, those before it being taken. -/
structure FirstOffence (s : Store) (id : SessionId) (paths : List String) (index : Nat)
    (e : PoolError) : Prop where
  offends : ∃ path, paths[index]? = some path ∧ s.Offends id (paths.take index) path e
  first : ∀ j < index, ∀ path, paths[j]? = some path →
    ∀ e, ¬ s.Offends id (paths.take j) path e

/-- How the result of accepting nodes at given paths is determined by the store before. -/
structure TakesExactly (s : Store) (id : SessionId) (paths : List String)
    (result : Except PoolError (List NodeHandle)) : Prop where
  accepted : (∃ handles, result = .ok handles) ↔
    paths.Nodup ∧ ∀ path ∈ paths, ∃ metadata, s.FreeNode path metadata
  /-- the handles are for the paths in order, with the next fences, and hold what was stored -/
  handles : ∀ handles, result = .ok handles →
    handles.map (·.lock) = paths.mapIdx (fun i path => ⟨path, id, s.grants + i + 1⟩) ∧
      ∀ h ∈ handles, s.FreeNode h.path h.metadata
  refused : ∀ e, result = .error e ↔ ∃ index, s.FirstOffence id paths index e

variable {s : Store} {id : SessionId} {path other : String} {paths taken : List String}
  {e : PoolError}

/-! ## Taking one node -/

/-- What locking and reading a node gives. -/
def take (s : Store) (id : SessionId) (path : String) : Except PoolError NodeHandle :=
  match (s.acquire path id).1 with
  | .error e => .error (.ofStore e)
  | .ok token => (Client.metadataOf path (s.read path)).map (NodeHandle.mk token)

/-- What locking and reading nodes one after another gives. -/
def takeAll (s : Store) (id : SessionId) : List String → Except PoolError (List NodeHandle)
  | [] => .ok []
  | path :: rest =>
      match s.take id path with
      | .error e => .error e
      | .ok h => ((s.acquire path id).2.takeAll id rest).map (h :: ·)

theorem OnlyHeld.lockHolder?_eq (hs : s.OnlyHeld) (path : String) :
    s.lockHolder? path = (s.grant? path).map (·.holder) := by
  unfold lockHolder? grant?
  cases hlock : s.locks.get? path with
  | none => rfl
  | some lock =>
      rcases hs path lock hlock with ⟨holder, fence, rfl⟩
      rfl

/-- A node is taken, under the next fence, when nothing is in the way, and else the reason is
given. -/
theorem take_cases (hs : s.OnlyHeld) (id : SessionId) (path : String) :
    (∃ e, s.take id path = .error e ∧ s.Offends id [] path e) ∨
      ∃ metadata, s.take id path = .ok ⟨⟨path, id, s.grants + 1⟩, metadata⟩ ∧
        s.FreeNode path metadata ∧ s.grant? path = none ∧
        (s.acquire path id).2 = s.granting path id := by
  unfold take
  rw [acquire_eq hs]
  by_cases hpath : isEntryPath path = true
  · rw [if_pos hpath]
    cases hentry : s.entries.get? path with
    | none =>
        have habsent : ¬ s.entries.contains path = true := by simp [Table.contains, hentry]
        rw [if_neg habsent]
        exact .inl ⟨_, rfl, .absent hpath hentry⟩
    | some entry =>
        have hpresent : s.entries.contains path = true := contains_iff.2 ⟨entry, hentry⟩
        have hread : s.read path = .ok entry.data := by
          unfold read
          rw [if_pos hpath, hentry]
        have hholder := hs.lockHolder?_eq path
        rw [if_pos hpresent, hread]
        cases hgrant : s.grant? path with
        | some t =>
            rw [hgrant] at hholder
            exact .inl ⟨_, rfl, .locked hpath hentry hholder⟩
        | none =>
            rw [hgrant] at hholder
            dsimp only
            unfold Client.metadataOf
            dsimp only
            cases hdecode : NodeMetadata.decode path entry.data with
            | error e => exact .inl ⟨_, rfl, .undecodable hpath hentry hholder hdecode⟩
            | ok metadata =>
                exact .inr ⟨metadata, rfl, ⟨hpath, ⟨entry, hentry, hdecode⟩, hholder⟩, rfl, rfl⟩
  · rw [if_neg hpath]
    exact .inl ⟨_, rfl, .malformed (by simpa using hpath)⟩

/-- A node in the way is not free, and only one reason applies. -/
theorem Offends.unique {e' : PoolError} (h : s.Offends id taken path e)
    (h' : s.Offends id taken path e') : e = e' := by
  cases h <;> cases h' <;> simp_all

theorem FreeNode.not_offends {metadata : NodeMetadata} (h : s.FreeNode path metadata)
    (hnot : path ∉ taken) : ¬ s.Offends id taken path e := by
  rcases h with ⟨hpath, ⟨entry, hentry, hdecode⟩, hfree⟩
  have hholder : s.holderAfter id taken path = none := by
    unfold holderAfter
    rw [if_neg hnot]
    exact hfree
  intro hoffends
  cases hoffends <;> simp_all

/-! ## The store after a node has been taken -/

theorem lockHolder?_granting (s : Store) (path : String) (id : SessionId) (other : String) :
    (s.granting path id).lockHolder? other =
      if other = path then some id else s.lockHolder? other := by
  have hget := s.locks.get?_insert path other ⟨path, .held id (s.grants + 1)⟩
  change ((s.locks.insert path ⟨path, .held id (s.grants + 1)⟩).get? other).bind _ = _
  rw [hget]
  split
  · rfl
  · rfl

theorem holderAfter_granting (s : Store) (path : String) (id : SessionId) (taken : List String)
    (other : String) :
    (s.granting path id).holderAfter id taken other = s.holderAfter id (path :: taken) other := by
  unfold holderAfter
  rw [lockHolder?_granting]
  by_cases hpath : other = path
  · simp [hpath]
  · simp [hpath]

/-- Taking a node changes nothing but the holder of its lock. -/
theorem offends_granting_iff :
    (s.granting path id).Offends id taken other e ↔ s.Offends id (path :: taken) other e := by
  have hholder := s.holderAfter_granting path id taken other
  constructor
  · intro h
    cases h with
    | malformed hpath => exact .malformed hpath
    | absent hpath habsent => exact .absent hpath habsent
    | locked hpath hentry hlocked => exact .locked hpath hentry (hholder.symm.trans hlocked)
    | undecodable hpath hentry hfree hdecode =>
        exact .undecodable hpath hentry (hholder.symm.trans hfree) hdecode
  · intro h
    cases h with
    | malformed hpath => exact .malformed hpath
    | absent hpath habsent => exact .absent hpath habsent
    | locked hpath hentry hlocked => exact .locked hpath hentry (hholder.trans hlocked)
    | undecodable hpath hentry hfree hdecode =>
        exact .undecodable hpath hentry (hholder.trans hfree) hdecode

theorem freeNode_granting_iff {metadata : NodeMetadata} :
    (s.granting path id).FreeNode other metadata ↔
      other ≠ path ∧ s.FreeNode other metadata := by
  have hholder := s.lockHolder?_granting path id other
  constructor
  · rintro ⟨hpath, hentry, hfree⟩
    rw [hholder] at hfree
    split at hfree
    · cases hfree
    · next hne => exact ⟨hne, hpath, hentry, hfree⟩
  · rintro ⟨hne, hpath, hentry, hfree⟩
    rw [if_neg hne] at hholder
    exact ⟨hpath, hentry, hholder.trans hfree⟩

/-! ## Taking several nodes -/

/-- Taking nodes begins with the first, and what is said of the others is said of the store in which
it is locked. -/
theorem takeAll_cons (hs : s.OnlyHeld) (id : SessionId) (path : String) (rest : List String) :
    (∃ e, s.takeAll id (path :: rest) = .error e ∧ s.Offends id [] path e) ∨
      ∃ metadata, s.FreeNode path metadata ∧ (s.granting path id).OnlyHeld ∧
        s.takeAll id (path :: rest) = ((s.granting path id).takeAll id rest).map
          (⟨⟨path, id, s.grants + 1⟩, metadata⟩ :: ·) := by
  rw [takeAll]
  rcases take_cases hs id path with ⟨e, htake, hoffends⟩ | ⟨metadata, htake, hnode, -, hafter⟩
  · rw [htake]
    exact .inl ⟨e, rfl, hoffends⟩
  · rw [htake, hafter]
    exact .inr ⟨metadata, hnode, granting_onlyHeld hs path id, rfl⟩

theorem exists_takeAll_ok_iff (hs : s.OnlyHeld) (id : SessionId) (paths : List String) :
    (∃ handles, s.takeAll id paths = .ok handles) ↔
      paths.Nodup ∧ ∀ path ∈ paths, ∃ metadata, s.FreeNode path metadata := by
  induction paths generalizing s with
  | nil => exact ⟨fun _ => ⟨.nil, nofun⟩, fun _ => ⟨[], rfl⟩⟩
  | cons path rest ih =>
      rw [List.nodup_cons, List.forall_mem_cons]
      rcases takeAll_cons hs id path rest with
        ⟨e, htake, hoffends⟩ | ⟨metadata, hnode, hs', htake⟩
      · rw [htake]
        constructor
        · rintro ⟨handles, hok⟩
          cases hok
        · rintro ⟨-, ⟨metadata, hnode⟩, -⟩
          exact absurd hoffends (hnode.not_offends List.not_mem_nil)
      · rw [htake]
        constructor
        · rintro ⟨handles, hok⟩
          cases hmore : (s.granting path id).takeAll id rest with
          | error e =>
              rw [hmore] at hok
              cases hok
          | ok more =>
              rcases (ih hs').1 ⟨more, hmore⟩ with ⟨hnodup, hnodes⟩
              refine ⟨⟨fun hmem => ?_, hnodup⟩, ⟨metadata, hnode⟩, fun p hp => ?_⟩
              · -- the second time the node would be found locked
                rcases hnodes path hmem with ⟨_, hagain⟩
                exact (freeNode_granting_iff.1 hagain).1 rfl
              · rcases hnodes p hp with ⟨m, hfree⟩
                exact ⟨m, (freeNode_granting_iff.1 hfree).2⟩
        · rintro ⟨⟨hnot, hnodup⟩, -, hnodes⟩
          have hmore : ∃ handles, (s.granting path id).takeAll id rest = .ok handles := by
            refine (ih hs').2 ⟨hnodup, fun p hp => ?_⟩
            rcases hnodes p hp with ⟨m, hfree⟩
            exact ⟨m, freeNode_granting_iff.2 ⟨fun h => hnot (h ▸ hp), hfree⟩⟩
          rcases hmore with ⟨more, hmore⟩
          rw [hmore]
          exact ⟨_, rfl⟩

theorem takeAll_handles (hs : s.OnlyHeld) {handles : List NodeHandle}
    (h : s.takeAll id paths = .ok handles) :
    handles.map (·.lock) = paths.mapIdx (fun i path => ⟨path, id, s.grants + i + 1⟩) ∧
      ∀ h ∈ handles, s.FreeNode h.path h.metadata := by
  induction paths generalizing s handles with
  | nil =>
      cases h
      exact ⟨rfl, nofun⟩
  | cons path rest ih =>
      rcases takeAll_cons hs id path rest with ⟨e, htake, -⟩ | ⟨metadata, hnode, hs', htake⟩
      · rw [htake] at h
        cases h
      · rw [htake] at h
        cases hmore : (s.granting path id).takeAll id rest with
        | error e =>
            rw [hmore] at h
            cases h
        | ok more =>
            rw [hmore] at h
            cases h
            rcases ih hs' hmore with ⟨hlocks, hnodes⟩
            constructor
            · rw [List.map_cons, List.mapIdx_cons, hlocks]
              -- the fences of the others are counted from the first one
              have hfences : ∀ i, (s.granting path id).grants + i + 1 = s.grants + (i + 1) + 1 := by
                intro i
                change s.grants + 1 + i + 1 = _
                omega
              simp only [hfences, Nat.add_zero]
            · refine List.forall_mem_cons.2 ⟨hnode, fun h hh => ?_⟩
              exact (freeNode_granting_iff.1 (hnodes h hh)).2

/-- The first offence is at the first node, or among the others once that one is locked. -/
theorem firstOffence_cons_iff {rest : List String} :
    (∃ index, s.FirstOffence id (path :: rest) index e) ↔
      s.Offends id [] path e ∨
        (∀ e, ¬ s.Offends id [] path e) ∧
          ∃ index, (s.granting path id).FirstOffence id rest index e := by
  constructor
  · rintro ⟨index, ⟨p, hp, hoffends⟩, hfirst⟩
    cases index with
    | zero =>
        obtain rfl : path = p := Option.some.inj hp
        exact .inl hoffends
    | succ index =>
        refine .inr ⟨hfirst 0 (Nat.succ_pos _) path rfl, index, ?_, ?_⟩
        · exact ⟨p, hp, offends_granting_iff.2 hoffends⟩
        · intro j hj q hq e hearlier
          exact hfirst (j + 1) (Nat.succ_lt_succ hj) q hq e (offends_granting_iff.1 hearlier)
  · rintro (hoffends | ⟨hnone, index, ⟨p, hp, hoffends⟩, hfirst⟩)
    · exact ⟨0, ⟨path, rfl, hoffends⟩, nofun⟩
    · refine ⟨index + 1, ⟨p, hp, offends_granting_iff.1 hoffends⟩, ?_⟩
      intro j hj q hq e hearlier
      cases j with
      | zero =>
          obtain rfl : path = q := Option.some.inj hq
          exact hnone e hearlier
      | succ j =>
          exact hfirst j (Nat.lt_of_succ_lt_succ hj) q hq e (offends_granting_iff.2 hearlier)

theorem takeAll_error_iff (hs : s.OnlyHeld) (id : SessionId) (paths : List String)
    (e : PoolError) :
    s.takeAll id paths = .error e ↔ ∃ index, s.FirstOffence id paths index e := by
  induction paths generalizing s with
  | nil =>
      constructor
      · intro h
        cases h
      · rintro ⟨index, ⟨p, hp, -⟩, -⟩
        cases hp
  | cons path rest ih =>
      rw [firstOffence_cons_iff]
      rcases takeAll_cons hs id path rest with
        ⟨cause, htake, hoffends⟩ | ⟨metadata, hnode, hs', htake⟩
      · rw [htake]
        constructor
        · intro h
          cases h
          exact .inl hoffends
        · rintro (hother | ⟨hnone, -⟩)
          · exact congrArg Except.error (hoffends.unique hother)
          · exact absurd hoffends (hnone cause)
      · have hnone : ∀ e, ¬ s.Offends id [] path e := fun e =>
          hnode.not_offends List.not_mem_nil
        rw [htake, ← ih hs']
        constructor
        · intro h
          refine .inr ⟨hnone, ?_⟩
          cases hmore : (s.granting path id).takeAll id rest with
          | error cause =>
              rw [hmore] at h
              cases h
              rfl
          | ok more =>
              rw [hmore] at h
              cases h
        · rintro (hoffends | ⟨-, hmore⟩)
          · exact absurd hoffends (hnone e)
          · rw [hmore]
            rfl

theorem takeAll_exactly (hs : s.OnlyHeld) (id : SessionId) (paths : List String) :
    s.TakesExactly id paths (s.takeAll id paths) where
  accepted := exists_takeAll_ok_iff hs id paths
  handles _ h := takeAll_handles hs h
  refused := takeAll_error_iff hs id paths

end Store

/-! ## Accepting -/

namespace Client

open Store

variable {c : Client} {id : SessionId} {s : Store} {r : NodeRequest} {path : String}

/-- On an open session the client takes the nodes one after another. -/
theorem lockAll_result (rid : String) (held : List NodeHandle) (entries : List String)
    (hs : s.OnlyHeld) (hopen : s.isSessionOpen id = true) :
    ((c.lockAll rid held entries).run (.plain id) s).answer.result =
      (s.takeAll id (entries.map c.resolve)).map (held ++ ·) := by
  induction entries generalizing held s with
  | nil => exact congrArg Except.ok (List.append_nil held).symm
  | cons entry rest ih =>
      rw [List.map_cons, lockAll, answer_note_bind, answer_ask_bind,
        Session.plain_perform_of_open hopen]
      generalize c.resolve entry = path
      unfold takeAll take
      simp only [Session.answer]
      rcases acquire_cases hs path id with ⟨e, hacquire⟩ | ⟨-, hacquire⟩
      · rw [hacquire]
        dsimp only
        simp only [answer_note_bind, answer_rollBack]
        rfl
      · rw [hacquire]
        dsimp only
        rw [answer_bind, run_metadataAt (s := s.granting path id) hopen]
        dsimp only
        have hread : (s.granting path id).read path = s.read path := rfl
        rw [hread]
        cases hnode : metadataOf path (s.read path) with
        | error e =>
            dsimp only
            simp only [answer_note_bind, answer_rollBack]
            rfl
        | ok metadata =>
            have hmore := ih (s := s.granting path id)
              (held ++ [⟨⟨path, id, s.grants + 1⟩, metadata⟩])
              (granting_onlyHeld hs path id) hopen
            dsimp only
            rw [answer_note_bind, hmore]
            cases (s.granting path id).takeAll id (rest.map c.resolve) with
            | error e => rfl
            | ok more => exact congrArg Except.ok (List.append_assoc ..)

end Client

/-- In every store that a run leads to, accepting a placed request with nodes on an open session
succeeds exactly when the nodes are different and free, and the handles and the error are read off
the store before. -/
theorem accept_exactly (s : Store) (hs : s.Reachable) (c : Client) (id : SessionId)
    (hopen : s.isSessionOpen id = true) (r : NodeRequest) (path : String)
    (hplaced : r.path = some path) (hnodes : r.allocatedNodes ≠ []) :
    s.TakesExactly id (r.allocatedNodes.map c.resolve)
      ((c.accept r).run (.plain id) s).answer.result := by
  have honly : s.OnlyHeld := hs.locksSound.onlyHeld
  have hresult : ((c.accept r).run (.plain id) s).answer.result =
      s.takeAll id (r.allocatedNodes.map c.resolve) := by
    calc ((c.accept r).run (.plain id) s).answer.result
        = ((c.lockAll (r.id.getD "") [] r.allocatedNodes).run (.plain id) s).answer.result :=
          (Client.accept_answer (.plain id) s hplaced hnodes).1
      _ = (s.takeAll id (r.allocatedNodes.map c.resolve)).map ([] ++ ·) :=
          Client.lockAll_result _ [] _ honly hopen
      _ = s.takeAll id (r.allocatedNodes.map c.resolve) := by
          cases s.takeAll id (r.allocatedNodes.map c.resolve) <;> rfl
  rw [hresult]
  exact Store.takeAll_exactly honly id _

/-- A request that names one node in two spellings. -/
def NodeRequest.ofOneNodeTwice : NodeRequest :=
  ((NodeRequest.new "label" "consumer").withAllocatedNodes ["1", "/nodepool/nodes/1"]).placed
    "/nodepool/requests/100-0000000000" "0000000000"

/-- The second spelling is refused, because the session itself has locked the node by then. -/
theorem accept_exactly_twice :
    let s := ((Service.fresh {} .halfMinute).after contended).store
    let result := ((Client.byDefault.accept .ofOneNodeTwice).run (.plain ⟨1⟩) s).answer.result
    s.TakesExactly ⟨1⟩ ["/nodepool/nodes/1", "/nodepool/nodes/1"] result ∧
      result = .error (.lockUnavailable "/nodepool/nodes/1" ⟨1⟩) ∧
      s.lockHolder? "/nodepool/nodes/1" = none :=
  ⟨accept_exactly _ ⟨{}, .halfMinute, contended, rfl⟩ .byDefault ⟨1⟩ (by decide) .ofOneNodeTwice
      "/nodepool/requests/100-0000000000" rfl (by decide), by decide, by decide⟩

end FencedPool
