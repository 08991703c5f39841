import FencedPool.Proofs.Scheduler.Conservation

/-!
# Stopping — a record that is refused holds up the requests behind it

A pass reads the records below the request root in the order of their paths, and the first one that
is no request record ends it.  The new requests before this record have been decided about by then,
and those behind it stay new.

This file defines:

* `Scheduler.Serves` — what a pass owes to a new request;
* `NeverStopped` — the statement that every new request gets it, whatever else is stored.

The main statement is `serves_iff`: a new request is served exactly when no record before it is
refused.  So `NeverStopped` fails, as `not_neverStopped` shows for one record.
-/

namespace FencedPool

namespace Scheduler

variable {perRequest : Nat} {store : Store} {paths : List String}
  {ready : Table String (List String)} {path : String} {r : NodeRequest}

/-! ## Decisions and refused records -/

/-- Nothing before a path that is decided about is refused. -/
theorem not_refused_before_decided (hpaths : paths.Pairwise (· < ·))
    (hpath : path ∈ (plan perRequest store paths ready).decisions.map (·.path)) {q : String}
    (hq : q ∈ paths) (hbefore : q < path) (e : MalformedRecord) :
    store.request? q ≠ some (.error e) := by
  induction paths generalizing ready with
  | nil => cases hq
  | cons first rest ih =>
      rcases List.pairwise_cons.1 hpaths with ⟨hfirst, hrest⟩
      rcases plan_cases first rest ready with ⟨hold, hplan⟩ | ⟨_, -, hplan⟩ |
        ⟨r, hrequest, -, hplan⟩
      · rw [hplan] at hpath
        rcases List.mem_cons.1 hq with rfl | hq
        · intro hrefused
          rcases hold _ hrefused with ⟨_, ⟨⟩, -⟩
        · exact ih hrest hpath hq
      · rw [hplan] at hpath
        cases hpath
      · rw [hplan] at hpath
        rcases List.mem_cons.1 hq with rfl | hlater
        · rw [hrequest]
          nofun
        · rcases List.mem_cons.1 hpath with hsame | hpath
          · subst hsame
            exact absurd hbefore (String.lt_asymm (hfirst q hlater))
          · exact ih hrest hpath hlater

/-- A new request that is not decided about stands behind the record that ended the pass. -/
theorem refused_before_not_decided (hpaths : paths.Pairwise (· < ·)) (hpath : path ∈ paths)
    (hrequest : store.request? path = some (.ok r)) (hstate : r.state = .requested)
    (hnot : path ∉ (plan perRequest store paths ready).decisions.map (·.path)) :
    ∃ q ∈ paths, q < path ∧ ∃ e, store.request? q = some (.error e) ∧
      (plan perRequest store paths ready).fault? = some e := by
  induction paths generalizing ready with
  | nil => cases hpath
  | cons first rest ih =>
      rcases List.pairwise_cons.1 hpaths with ⟨hfirst, hrest⟩
      rcases plan_cases first rest ready with ⟨hold, hplan⟩ | ⟨e, hrefused, hplan⟩ |
        ⟨_, -, -, hplan⟩
      · rw [hplan] at hnot ⊢
        rcases List.mem_cons.1 hpath with rfl | hpath
        · rcases hold _ hrequest with ⟨_, ⟨⟩, hold⟩
          exact absurd hstate hold
        · rcases ih hrest hpath hnot with ⟨q, hq, hstopped⟩
          exact ⟨q, List.mem_cons_of_mem _ hq, hstopped⟩
      · rw [hplan]
        rcases List.mem_cons.1 hpath with rfl | hpath
        · rw [hrequest] at hrefused
          cases hrefused
        · exact ⟨first, List.mem_cons_self, hfirst path hpath, e, hrefused, rfl⟩
      · rw [hplan] at hnot ⊢
        rw [List.map_cons, List.mem_cons, not_or] at hnot
        rcases List.mem_cons.1 hpath with rfl | hpath
        · exact absurd rfl hnot.1
        · rcases ih hrest hpath hnot.2 with ⟨q, hq, hstopped⟩
          exact ⟨q, List.mem_cons_of_mem _ hq, hstopped⟩

/-! ## What a pass owes to a request -/

theorem Reachable.noneEmpty {s : Scheduler} (h : s.Reachable) : NoneEmpty s.ready := by
  rcases h with ⟨c, service, steps, rfl⟩
  exact ((Inventory.balanced_start c service).after steps).noneEmpty

/-- Whether a request with a label is fulfilled after a pass, with so many of the nodes that were
ready for the label, or has failed. -/
def Serves (s : Scheduler) (perRequest : Nat) (after : Store) (path label : String) : Prop :=
  ∃ r, after.request? path = some (.ok r) ∧ r.poolLabel = label ∧
    (r.state = .failed ∨ r.state = .fulfilled ∧ r.allocatedNodes.length = perRequest ∧
      r.allocatedNodes.Sublist (s.readyNodes label))

/-- Whether a pass meets a record before a path that is refused with an error. -/
def RefusedBefore (s : Scheduler) (store : Store) (path : String) (e : MalformedRecord) : Prop :=
  ∃ q ∈ store.children s.requestRoot, q < path ∧ store.request? q = some (.error e)

theorem serves_of_decided {s : Scheduler} (hs : NoneEmpty s.ready) {d : Decision}
    (hd : d ∈ (s.passPlan store perRequest).decisions) :
    s.Serves perRequest (s.runOnce store perRequest).state.2 d.path d.request.poolLabel := by
  refine ⟨d.record, s.request?_of_decided hs hd, d.record_poolLabel, ?_⟩
  rcases d.record_cases with ⟨hfulfilled, hnodes⟩ | ⟨hfailed, -, -⟩
  · refine .inr ⟨hfulfilled, length_nodes hd hnodes, ?_⟩
    have hgranted : d.nodes = d.record.allocatedNodes := congrArg (·.getD []) hnodes
    rw [← hgranted]
    exact nodes_sublist hd
  · exact .inl hfailed

/-- A request that is still new has not been served. -/
theorem not_serves_of_new {s : Scheduler} {after : Store} {label : String}
    (hrequest : after.request? path = some (.ok r)) (hstate : r.state = .requested) :
    ¬ s.Serves perRequest after path label := by
  rintro ⟨r', hrequest', -, hserved⟩
  rw [hrequest] at hrequest'
  cases hrequest'
  rw [hstate] at hserved
  rcases hserved with ⟨⟨⟩⟩ | ⟨⟨⟩, -⟩

end Scheduler

/-- A pass serves a new request exactly when no record with a smaller path is refused.  If there is
one, then the pass ends with such an error, and the request stays as it was. -/
theorem serves_iff {s : Scheduler} (hs : s.Reachable) (store : Store) (perRequest : Nat)
    {path : String} {r : NodeRequest} (hpath : path ∈ store.children s.requestRoot)
    (hrequest : store.request? path = some (.ok r)) (hstate : r.state = .requested) :
    let pass := s.runOnce store perRequest
    (s.Serves perRequest pass.state.2 path r.poolLabel ↔ ∀ e, ¬ s.RefusedBefore store path e) ∧
      ((∃ e, s.RefusedBefore store path e) → pass.state.2.get? path = store.get? path ∧
        ∃ e, s.RefusedBefore store path e ∧ pass.answer = .error (.malformedRecord e)) := by
  intro pass
  have hsorted := store.pairwise_children s.requestRoot
  by_cases hdecided : path ∈ (s.passPlan store perRequest).decisions.map (·.path)
  · have hnone : ∀ e, ¬ s.RefusedBefore store path e := by
      rintro e ⟨q, hq, hbefore, hrefused⟩
      exact Scheduler.not_refused_before_decided hsorted hdecided hq hbefore e hrefused
    refine ⟨iff_of_true ?_ hnone, fun ⟨e, he⟩ => absurd he (hnone e)⟩
    rcases List.mem_map.1 hdecided with ⟨d, hd, rfl⟩
    have hsame := (Scheduler.request?_of_mem_plan hd).1
    rw [hrequest] at hsame
    cases hsame
    exact Scheduler.serves_of_decided hs.noneEmpty hd
  · rcases Scheduler.refused_before_not_decided hsorted hpath hrequest hstate hdecided with
      ⟨q, hq, hbefore, e, hrefused, hfault⟩
    have hstopped : s.RefusedBefore store path e := ⟨q, hq, hbefore, hrefused⟩
    have hkept : pass.state.2.get? path = store.get? path := s.get?_of_not_decided hdecided
    have hanswer : pass.answer = .error (.malformedRecord e) := by
      refine (congrArg (·.answer) (s.runOnce_eq store perRequest)).trans ?_
      exact Plan.answer_carriedOut hfault s store
    refine ⟨iff_of_false ?_ fun hnone => hnone e hstopped, fun _ => ⟨hkept, e, hstopped, hanswer⟩⟩
    refine Scheduler.not_serves_of_new ?_ hstate
    exact (congrArg (Option.map (NodeRequest.decode path)) hkept).trans hrequest

/-- A request for one node as it is read below the default request root. -/
def NodeRequest.waiting : NodeRequest :=
  { NodeRequest.new "label" "consumer" with path := some "/nodepool/requests/100-0000000000" }

/-- What is done until the request is there. -/
def ServiceAction.untilWaiting (earlier : List ServiceAction) : List ServiceAction :=
  earlier ++ [.openSession,
    .call ⟨1⟩ (.create "/nodepool/requests/100-" (NodeRequest.new "label" "consumer").encode)]

/-- A scheduler with one ready node for the request, after what else has been done. -/
def Inventory.withRequest (earlier : List ServiceAction) : Inventory :=
  (start {} (.fresh {} .halfMinute)).after
    (.provision 1 "label" :: (ServiceAction.untilWaiting earlier).map .act)

/-- The request is served where nothing else has been done. -/
theorem serves_alone :
    let i := Inventory.withRequest []
    let path := "/nodepool/requests/100-0000000000"
    i.scheduler.Reachable ∧ path ∈ i.service.store.children i.scheduler.requestRoot ∧
      i.service.store.request? path = some (.ok .waiting) ∧
      i.scheduler.Serves 1 (i.scheduler.runOnce i.service.store 1).state.2 path "label" := by
  intro i path
  have hs : i.scheduler.Reachable := ⟨{}, .fresh {} .halfMinute, _, rfl⟩
  have hchildren : i.service.store.children i.scheduler.requestRoot = [path] := by decide +kernel
  have hpath : path ∈ i.service.store.children i.scheduler.requestRoot := by
    rw [hchildren]
    exact List.mem_singleton_self path
  have hrequest : i.service.store.request? path = some (.ok .waiting) := by decide +kernel
  refine ⟨hs, hpath, hrequest, (serves_iff hs _ 1 hpath hrequest rfl).1.2 ?_⟩
  rintro e ⟨q, hq, hbefore, -⟩
  rw [hchildren] at hq
  cases List.mem_singleton.1 hq
  exact String.lt_irrefl _ hbefore

/-! ## One refused record -/

/-- Whether every pass serves every new request, whatever else stands below the request root. -/
def NeverStopped : Prop :=
  ∀ (s : Scheduler) (store : Store) (perRequest : Nat) (path : String) (r : NodeRequest),
    s.Reachable → store.Reachable → path ∈ store.children s.requestRoot →
      store.request? path = some (.ok r) → r.state = .requested →
        s.Serves perRequest (s.runOnce store perRequest).state.2 path r.poolLabel

/-- An entry without data before it keeps a request from being served. -/
theorem not_neverStopped : ¬ NeverStopped := by
  intro h
  let earlier : List ServiceAction := [.put "/nodepool/requests/1" []]
  let i := Inventory.withRequest earlier
  let path := "/nodepool/requests/100-0000000000"
  have hstore : i.service.store.Reachable :=
    ⟨{}, .halfMinute, .provision (.new {}) 1 "label" :: ServiceAction.untilWaiting earlier, rfl⟩
  have hserved := h i.scheduler i.service.store 1 path .waiting ⟨{}, .fresh {} .halfMinute, _, rfl⟩
    hstore (by decide +kernel) (by decide +kernel) rfl
  have hafter : (i.scheduler.runOnce i.service.store 1).state.2.request? path =
      some (.ok .waiting) := by decide +kernel
  exact Scheduler.not_serves_of_new hafter rfl hserved

end FencedPool
