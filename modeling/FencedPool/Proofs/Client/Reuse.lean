import FencedPool.Proofs.Client.Ownership

/-!
# Reuse — when a copy of a request can be accepted

Nothing that accepting a request does depends on the entry of the request: the entry is only deleted
in the end, and one that is absent already is no failure.  So a copy of a request that has been
consumed can be accepted whenever its nodes can be locked and read, once more and by anyone.  It is
refused as long as one of the handles of the first acceptance is outstanding.

This file defines:

* `Store.isNode` — whether the metadata of a node can be read;
* `Store.Acceptable` — whether a session could lock and read given nodes;
* `ConsumedOnce` — that no copy of a request is accepted twice, which fails (`not_consumedOnce`).

The main statement is `reuse_refused_iff`.
-/

namespace FencedPool

open Procedure

namespace Store

/-- Whether metadata can be read at a path. -/
def isNode (s : Store) (path : String) : Bool := (Client.metadataOf path (s.read path)).toBool

/-- Whether nodes at given paths can be locked and read one after another: they are all different,
readable, and not locked by anyone. -/
def Lockable (s : Store) (paths : List String) : Prop :=
  paths.Nodup ∧ ∀ p ∈ paths, s.isNode p = true ∧ s.grant? p = none

instance (s : Store) (paths : List String) : Decidable (s.Lockable paths) :=
  inferInstanceAs (Decidable (_ ∧ _))

/-- Whether a session can accept a request for nodes at given paths: it is open, and there are nodes
which can all be locked and read. -/
def Acceptable (s : Store) (id : SessionId) (paths : List String) : Prop :=
  s.isSessionOpen id = true ∧ paths ≠ [] ∧ s.Lockable paths

instance (s : Store) (id : SessionId) (paths : List String) :
    Decidable (s.Acceptable id paths) :=
  inferInstanceAs (Decidable (_ ∧ _ ∧ _))

variable {s : Store} {path : String} {id : SessionId}

theorem granting_held (id : SessionId) (hs : s.OnlyHeld) (hfree : s.grant? path = none)
    {tokens : List LockToken} (hheld : ∀ t ∈ tokens, s.Holds t) (hnodup : tokens.Nodup) :
    (∀ t ∈ tokens ++ [LockToken.mk path id (s.grants + 1)], (s.granting path id).Holds t) ∧
      (tokens ++ [LockToken.mk path id (s.grants + 1)]).Nodup := by
  have hiff := granting_holds_iff hs hfree id
  constructor
  · intro t ht
    rcases List.mem_append.1 ht with ht | ht
    · exact (hiff t).2 (.inr (hheld t ht))
    · exact (hiff t).2 (.inl (List.mem_singleton.1 ht))
  · refine List.nodup_append.2 ⟨hnodup, List.nodup_singleton _, ?_⟩
    rintro t ht u hu rfl
    exact grant?_eq_none_iff.1 hfree t (by simp only [List.mem_singleton.1 hu]) (hheld t ht)

theorem acquire_eq_of_isNode (hs : s.OnlyHeld) (hnode : s.isNode path = true)
    (hfree : s.grant? path = none) :
    s.acquire path id = (.ok ⟨path, id, s.grants + 1⟩, s.granting path id) := by
  simp only [acquire_eq hs, hfree]
  unfold isNode read at hnode
  by_cases hp : isEntryPath path = true
  · simp only [if_pos hp] at hnode ⊢
    cases hentry : s.entries.get? path with
    | none =>
        simp only [hentry] at hnode
        cases hnode
    | some entry =>
        have hcontains : s.entries.contains path = true := by
          unfold Table.contains
          simp only [hentry]
          rfl
        simp only [if_pos hcontains]
  · simp only [if_neg hp] at hnode
    cases hnode

theorem granting_grant?_eq_none_iff (hs : s.OnlyHeld) (hfree : s.grant? path = none)
    {other : String} :
    (s.granting path id).grant? other = none ↔ other ≠ path ∧ s.grant? other = none := by
  simp only [grant?_eq_none_iff, granting_holds_iff hs hfree]
  constructor
  · intro h
    refine ⟨?_, ?_⟩
    · rintro rfl
      exact h ⟨other, id, s.grants + 1⟩ rfl (.inl rfl)
    · intro t ht hold
      exact h t ht (.inr hold)
  · rintro ⟨hne, hnone⟩ t ht (rfl | hold)
    · exact hne ht.symm
    · exact hnone t ht hold

/-- Nodes can be locked when the first can, and the others once it is locked. -/
theorem lockable_cons_iff (hs : s.OnlyHeld) (id : SessionId) {rest : List String} :
    s.Lockable (path :: rest) ↔
      (s.isNode path = true ∧ s.grant? path = none) ∧ (s.granting path id).Lockable rest := by
  unfold Lockable
  simp only [List.nodup_cons, List.forall_mem_cons]
  constructor
  · rintro ⟨⟨hnot, hnodup⟩, ⟨hnode, hfree⟩, hrest⟩
    refine ⟨⟨hnode, hfree⟩, hnodup, fun p hp => ⟨(hrest p hp).1, ?_⟩⟩
    simp only [granting_grant?_eq_none_iff hs hfree]
    exact ⟨fun h => hnot (h ▸ hp), (hrest p hp).2⟩
  · rintro ⟨⟨hnode, hfree⟩, hnodup, hrest⟩
    have hfree' := fun p hp => (granting_grant?_eq_none_iff hs hfree).1 (hrest p hp).2
    refine ⟨⟨fun h => (hfree' path h).1 rfl, hnodup⟩, ⟨hnode, hfree⟩, fun p hp => ?_⟩
    exact ⟨(hrest p hp).1, (hfree' p hp).2⟩

end Store

/-! ## Rolling back and locking -/

namespace Client

open Store

variable {c : Client} {id : SessionId} {s : Store}

theorem rollBack_clean {tokens : List LockToken} (hs : s.LocksSound)
    (hopen : s.isSessionOpen id = true) (hheld : ∀ t ∈ tokens, s.Holds t) (hnodup : tokens.Nodup) :
    ((rollBack tokens).run (.plain id) s).answer.failures = [] := by
  induction tokens generalizing s with
  | nil => rfl
  | cons token rest ih =>
      rcases List.forall_mem_cons.1 hheld with ⟨htoken, hrest⟩
      rcases List.nodup_cons.1 hnodup with ⟨hnot, hnodup⟩
      rw [rollBack, answer_ask_bind, Session.plain_perform_of_open hopen]
      simp only [Session.answer, release_eq hs.onlyHeld, if_pos htoken]
      refine ih (s := s.freeing token.path) ((freeing_lockStep hs htoken).locksSound hs) hopen ?_
        hnodup
      intro t ht
      simp only [freeing_holds_iff hs.onlyHeld]
      refine ⟨hrest t ht, ?_⟩
      intro hpath
      exact hnot ((hrest t ht).unique htoken hpath ▸ ht)

theorem answer_rollBack (tokens : List LockToken) (e : PoolError) (s : Store) :
    ((do
      let report ← rollBack tokens
      return { result := .error e, cleanup := report } : Procedure AcceptOutcome).run
        (.plain id) s).answer =
      { result := .error e, cleanup := ((rollBack tokens).run (.plain id) s).answer } := by
  simp only [answer_bind]
  rfl

theorem run_metadataAt (hopen : s.isSessionOpen id = true) (path : String) :
    (metadataAt path).run (.plain id) s =
      { answer := metadataOf path (s.read path), state := s } := by
  rw [metadataAt, run_ask_bind, Session.plain_perform_of_open hopen]
  simp only [Session.answer]
  cases s.read path with
  | error e => rfl
  | ok data => rfl

/-- On an open session locking succeeds when all nodes can be locked and read, and otherwise every
lock is given back. -/
theorem lockAll_answer (rid : String) (held : List NodeHandle) (entries : List String)
    (hs : s.LocksSound) (hopen : s.isSessionOpen id = true)
    (hheld : ∀ t ∈ held.map (·.lock), s.Holds t) (hnodup : (held.map (·.lock)).Nodup) :
    let answer := ((c.lockAll rid held entries).run (.plain id) s).answer
    answer.cleanup.failures = [] ∧
      (answer.isAccepted = true ↔ s.Lockable (entries.map c.resolve)) := by
  induction entries generalizing held s with
  | nil => exact ⟨rfl, fun _ => ⟨.nil, nofun⟩, fun _ => rfl⟩
  | cons entry rest ih =>
      rw [List.map_cons, lockable_cons_iff hs.onlyHeld id, lockAll, answer_note_bind,
        answer_ask_bind, Session.plain_perform_of_open hopen]
      generalize c.resolve entry = path
      simp only [Session.answer]
      -- the lock is refused, or granted and the node read
      rcases acquire_cases hs.onlyHeld path id with ⟨e, hacquire⟩ | ⟨hfree, hacquire⟩
      · rw [hacquire]
        dsimp only
        simp only [answer_note_bind, answer_rollBack]
        refine ⟨rollBack_clean hs hopen hheld hnodup, ?_⟩
        constructor
        · intro haccepted
          cases haccepted
        · rintro ⟨⟨hnode, hfree⟩, -⟩
          simp only [acquire_eq_of_isNode hs.onlyHeld hnode hfree] at hacquire
          cases hacquire
      · let token : LockToken := ⟨path, id, s.grants + 1⟩
        have hs' : (s.granting path id).LocksSound :=
          (granting_lockStep hs hfree hopen).locksSound hs
        rcases granting_held id hs.onlyHeld hfree hheld hnodup with ⟨hheld', hnodup'⟩
        rw [hacquire]
        dsimp only
        rw [answer_bind, run_metadataAt (s := s.granting path id) hopen]
        dsimp only
        have hread : (s.granting path id).read path = s.read path := rfl
        simp only [hread]
        unfold isNode
        cases hnode : metadataOf path (s.read path) with
        | error e =>
            dsimp only
            simp only [answer_note_bind, answer_rollBack]
            refine ⟨rollBack_clean hs' hopen hheld' hnodup', ?_⟩
            constructor
            · intro haccepted
              cases haccepted
            · rintro ⟨⟨hok, -⟩, -⟩
              cases hok
        | ok metadata =>
            dsimp only
            simp only [answer_note_bind]
            have hrest := ih (s := s.granting path id) (held ++ [⟨token, metadata⟩]) hs'
              hopen (by simpa using hheld') (by simpa using hnodup')
            refine ⟨hrest.1, hrest.2.trans ?_⟩
            constructor
            · intro h
              exact ⟨⟨rfl, hfree⟩, h⟩
            · exact And.right

theorem lockAll_answer_of_closed (rid : String) {entries : List String}
    (hclosed : ¬ s.isSessionOpen id = true) (hentries : entries ≠ []) :
    ((c.lockAll rid [] entries).run (.plain id) s).answer =
      { result := .error (.ofStore (.sessionExpired id)) } := by
  cases entries with
  | nil => exact absurd rfl hentries
  | cons entry rest =>
      rw [lockAll, answer_note_bind, answer_ask_bind, Session.plain_perform_of_closed hclosed]
      dsimp only
      simp only [answer_note_bind, answer_rollBack]
      rfl

/-! ## Accepting -/

variable {r : NodeRequest} {path : String}

/-- The outcome of accepting is that of locking, with the report of the deletion. -/
theorem accept_answer {σ : Type} (session : Session σ) (state : σ) (hplaced : r.path = some path)
    (hnodes : r.allocatedNodes ≠ []) :
    let outcome := ((c.accept r).run session state).answer
    let locking := ((c.lockAll (r.id.getD "") [] r.allocatedNodes).run session state).answer
    outcome.result = locking.result ∧
      ∃ answer, outcome.cleanup.failures =
        locking.cleanup.failures ++ deletionFailures path answer := by
  intro outcome locking
  rcases deleteNode_gives (gives_run session (deleteNode path)
      ((c.lockAll (r.id.getD "") [] r.allocatedNodes).run session state).state) with
    ⟨answer, -, hdeletion⟩
  have houtcome : outcome = { locking with
      cleanup := locking.cleanup.merge ⟨deletionFailures path answer⟩ } := by
    change ((c.accept r).run session state).answer = _
    rw [accept, hplaced]
    dsimp only
    simp only [if_neg hnodes, answer_bind, answer_bind, hdeletion]
    split
    · rfl
    · rfl
  rw [houtcome]
  exact ⟨rfl, answer, rfl⟩

theorem accept_answer_of_no_nodes {σ : Type} (session : Session σ) (state : σ)
    (hplaced : r.path = some path) (hnodes : r.allocatedNodes = []) :
    let outcome := ((c.accept r).run session state).answer
    outcome.isAccepted = false ∧
      ∃ answer, outcome.cleanup.failures = deletionFailures path answer := by
  intro outcome
  rcases deleteNode_gives (gives_run session (deleteNode path) state) with ⟨answer, -, hdeletion⟩
  have houtcome : outcome =
      { result := .error (.notAllocated (r.id.getD ""))
        cleanup := ⟨deletionFailures path answer⟩ } := by
    change ((c.accept r).run session state).answer = _
    rw [accept, hplaced]
    dsimp only
    rw [if_pos hnodes, answer_note_bind, answer_bind, hdeletion]
    rfl
  simp only [houtcome]
  exact ⟨rfl, answer, rfl⟩

/-- A placed request is accepted when it is acceptable; nothing but the deletion can be reported. -/
theorem accept_plain_answer (c : Client) (id : SessionId) (hs : s.LocksSound)
    (hplaced : r.path = some path) :
    let outcome := ((c.accept r).run (.plain id) s).answer
    (outcome.isAccepted = true ↔ s.Acceptable id (r.allocatedNodes.map c.resolve)) ∧
      ∃ answer, outcome.cleanup.failures = deletionFailures path answer := by
  intro outcome
  by_cases hnodes : r.allocatedNodes = []
  · rcases accept_answer_of_no_nodes (c := c) (.plain id) s hplaced hnodes with
      ⟨hrefused, hfailures⟩
    refine ⟨?_, hfailures⟩
    rw [hrefused, hnodes]
    exact ⟨nofun, fun h => absurd rfl h.2.1⟩
  · rcases accept_answer (c := c) (.plain id) s hplaced hnodes with ⟨hresult, answer, hfailures⟩
    have haccepted := congrArg Except.toBool hresult
    change outcome.isAccepted = AcceptOutcome.isAccepted _ at haccepted
    by_cases hopen : s.isSessionOpen id = true
    · rcases lockAll_answer (c := c) (r.id.getD "") [] r.allocatedNodes hs hopen nofun .nil with
        ⟨hclean, hiff⟩
      simp only [hclean] at hfailures
      refine ⟨?_, answer, hfailures⟩
      rw [haccepted, hiff]
      constructor
      · intro h
        exact ⟨hopen, by simpa using hnodes, h⟩
      · rintro ⟨-, -, h⟩
        exact h
    · simp only [lockAll_answer_of_closed _ hopen hnodes] at haccepted hfailures
      refine ⟨?_, answer, hfailures⟩
      rw [haccepted]
      exact ⟨nofun, fun h => absurd h.1 hopen⟩

theorem release_not_mem_deletionFailures {target : String} {cause : StoreError}
    {answer : Except StoreError Unit} :
    CleanupError.release target cause ∉ deletionFailures path answer := by
  unfold deletionFailures
  split <;> simp

/-- Where nothing but the deletion is reported, every lock that was taken has been given back. -/
theorem grant?_eq_of_refused (hs : s.LocksSound) (hplaced : r.path = some path) {e : PoolError}
    (hrefused : ((c.accept r).run (.plain id) s).answer.result = .error e) (p : String) :
    ((c.accept r).run (.plain id) s).state.grant? p = s.grant? p := by
  have hall := c.allOrNothing_plain id hs hplaced
  rcases accept_plain_answer c id hs hplaced with ⟨-, answer, hfailures⟩
  rcases hall.report with ⟨deletion, hreport, -⟩
  apply grant?_eq_of_holds_iff
  intro t _
  simp only [hall.locks.refused e hrefused t]
  constructor
  · rintro (hold | ⟨-, cause, hretained⟩)
    · exact hold
    · -- a lock that was kept would be reported, but the deletion is all that is
      have hlisted : CleanupError.release t.path cause ∈ deletionFailures path answer := by
        simp only [← hfailures, hreport]
        exact List.mem_append_left _ (List.mem_map.2 ⟨_, hretained, rfl⟩)
      exact absurd hlisted release_not_mem_deletionFailures
  · exact .inl

end Client

/-- In every state of every run, accepting any copy of a request is refused and leaves the lock
table as it is, exactly when its nodes cannot all be locked and read.  That is so while a handle for
one of them is outstanding.  Whether the request has been consumed makes no difference. -/
theorem reuse_refused_iff (clock : Clock) (timeout : Duration) (steps : List World.Step)
    (id : SessionId) (c : Client) (r : NodeRequest) (path : String)
    (hplaced : r.path = some path) :
    let w := (World.fresh clock timeout).after steps
    let reply := (c.accept r).run (.plain id) w.service.store
    ((reply.answer.isAccepted = false ∧
        ∀ p, reply.state.grant? p = w.service.store.grant? p) ↔
      ¬ w.service.store.Acceptable id (r.allocatedNodes.map c.resolve)) ∧
    ∀ h ∈ w.outstanding, h.path ∈ r.allocatedNodes.map c.resolve →
      ¬ w.service.store.Acceptable id (r.allocatedNodes.map c.resolve) := by
  intro w reply
  rcases World.after_accounted clock timeout steps with ⟨history, haccounted⟩
  have hs : w.service.store.LocksSound := haccounted.locksSound
  have hiff := (Client.accept_plain_answer c id hs hplaced).1
  refine ⟨?_, ?_⟩
  · simp only [← hiff, Bool.not_eq_true]
    constructor
    · exact And.left
    · intro hrefused
      refine ⟨hrefused, fun p => ?_⟩
      unfold AcceptOutcome.isAccepted at hrefused
      cases hresult : reply.answer.result with
      | ok handles =>
          change reply.answer.result.toBool = false at hrefused
          simp only [hresult] at hrefused
          cases hrefused
      | error e => exact Client.grant?_eq_of_refused hs hplaced hresult p
  · intro h hh hnode hacceptable
    have hheld := (haccounted.mem_outstanding_iff.1 hh).2
    have hfree := (hacceptable.2.2.2 h.path hnode).2
    unfold Store.Holds at hheld
    change w.service.store.grant? h.path = some h.lock at hheld
    simp only [hfree] at hheld
    cases hheld

/-- While the first session holds the nodes, the second is refused and changes no lock. -/
theorem reuse_refused_while_outstanding :
    let w := (World.fresh {} .halfMinute).after contest
    let reply := (Client.byDefault.accept .ofTwoNodes).run (.plain ⟨2⟩) w.service.store
    reply.answer.isAccepted = false ∧ ∀ p, reply.state.grant? p = w.service.store.grant? p := by
  rcases reuse_refused_iff {} .halfMinute contest ⟨2⟩ .byDefault .ofTwoNodes
      "/nodepool/requests/100-0000000000" rfl with ⟨hrefused, howned⟩
  refine hrefused.2 (howned ⟨⟨"/nodepool/nodes/1", ⟨1⟩, 1⟩, {}⟩ ?_ ?_)
  · decide
  · decide

/-! ## A request that is accepted twice -/

/-- Whether a request is consumed at most once: when a request has been placed, and a copy that was
read again has been accepted, and the entry is gone, then no session gets that copy accepted again,
whatever is done in between. -/
def ConsumedOnce : Prop :=
  ∀ (clock : Clock) (timeout : Duration) (before meanwhile later : List World.Step)
    (id second : SessionId) (c : Client) (r copy : NodeRequest) (path : String),
    let placing := (World.fresh clock timeout).after before
    ((c.request r.poolLabel r.consumerLabel).run (.plain id) placing.service.store).answer = .ok r →
    let placed := placing.run id
      (.other (c.request r.poolLabel r.consumerLabel >>= fun _ => pure ()))
    let allocated := placed.after meanwhile
    ((Client.refresh r).run (.plain id) allocated.service.store).answer = .ok copy →
    ((c.accept copy).run (.plain id) allocated.service.store).answer.isAccepted = true →
    let consumed := (allocated.run id (.accept c copy)).after later
    copy.path = some path → consumed.service.store.contains path = false →
      ((c.accept copy).run (.plain second) consumed.service.store).answer.isAccepted = false

/-- The request of a client with the default settings that is the first to be placed. -/
def NodeRequest.firstPlaced : NodeRequest :=
  (NodeRequest.new "label" "consumer").placed "/nodepool/requests/100-0000000000" "0000000000"

def NodeRequest.firstAllocated : NodeRequest :=
  (NodeRequest.firstPlaced.withAllocatedNodes ["1"]).withState .fulfilled

/-- A request is accepted twice when its node is given back in between. -/
theorem not_consumedOnce : ¬ ConsumedOnce := by
  intro h
  -- the handle of the first acceptance is released before the second
  have hrefused := h {} .halfMinute
    [.act .openSession, .act (.put "/nodepool/nodes/1" [0x7B, 0x7D])]
    [.act (.setData "/nodepool/requests/100-0000000000" NodeRequest.firstAllocated.encode)]
    [.act (.call ⟨1⟩ (.release ⟨"/nodepool/nodes/1", ⟨1⟩, 1⟩))]
    ⟨1⟩ ⟨1⟩ .byDefault .firstPlaced .firstAllocated "/nodepool/requests/100-0000000000"
    (by decide) (by decide +kernel) (by decide) rfl (by decide)
  revert hrefused
  decide

end FencedPool
