import FencedPool.Proofs.Request.RoundTrip
import FencedPool.Proofs.Scheduler.Pass

/-!
# Recording — what a pass takes off the ready lists is found in the store

A pass takes nodes from the front of a ready list and stores them in the record of one request.  So
what was ready before a pass is what the pass has stored, in the order of the requests, and behind
it what is still ready.  This holds however the pass ends.

The nodes that a pass allocates are read from the store alone: they are in the records of those
requests that were new before it and are fulfilled after it.

This file defines:

* `Allocation`, and `Store.allocations`, the nodes that were allocated between two stores.

The main statements are `Scheduler.allocations_runOnce` and `Scheduler.readyNodes_runOnce`.
-/

namespace FencedPool

/-- A node in the allocation of a request. -/
structure Allocation where
  request : NodeRequest
  node : String
  deriving DecidableEq

namespace Store

/-- The nodes of a request that was new in one store and is fulfilled in another. -/
def fulfilledAt (before after : Store) (path : String) : List Allocation :=
  match before.request? path, after.request? path with
  | some (.ok old), some (.ok r) =>
      if old.state = .requested ∧ r.state = .fulfilled then r.allocatedNodes.map (⟨r, ·⟩) else []
  | _, _ => []

/-- The nodes that were allocated to requests at given paths between two stores. -/
def allocations (before after : Store) (paths : List String) : List Allocation :=
  paths.flatMap (before.fulfilledAt after)

variable {before after : Store} {path : String}

theorem fulfilledAt_of_eq (h : after.request? path = before.request? path) :
    before.fulfilledAt after path = [] := by
  unfold fulfilledAt
  rw [h]
  cases before.request? path with
  | none => rfl
  | some outcome =>
      cases outcome with
      | error e => rfl
      | ok r =>
          dsimp only
          refine if_neg ?_
          rintro ⟨hnew, hfulfilled⟩
          rw [hnew] at hfulfilled
          cases hfulfilled

end Store

namespace Decision

/-- The nodes that a request gets, if any. -/
def nodes (d : Decision) : List String := d.nodes?.getD []

def allocations (d : Decision) : List Allocation := d.nodes.map (⟨d.record, ·⟩)

theorem record_poolLabel (d : Decision) : d.record.poolLabel = d.request.poolLabel := by
  rcases d with ⟨path, r, _ | nodes⟩
  · rfl
  · rfl

theorem record_path (d : Decision) : d.record.path = d.request.path := by
  rcases d with ⟨path, r, _ | nodes⟩
  · rfl
  · rfl

/-- A record that is written is fulfilled with the nodes of the decision, or it has failed and keeps
the list that it was read with. -/
theorem record_cases (d : Decision) :
    (d.record.state = .fulfilled ∧ d.nodes? = some d.record.allocatedNodes) ∨
      (d.record.state = .failed ∧ d.nodes? = none ∧
        d.record.allocatedNodes = d.request.allocatedNodes) := by
  rcases d with ⟨path, r, _ | nodes⟩
  · exact .inr ⟨rfl, rfl, rfl⟩
  · exact .inl ⟨rfl, rfl⟩

/-- A record that is written has no empty part, if none of the nodes is empty. -/
theorem emptyPart?_record {d : Decision} (hrequest : d.request.emptyPart? = none)
    (hnodes : "" ∉ d.nodes) : d.record.emptyPart? = none := by
  rw [NodeRequest.emptyPart?_eq_none_iff] at hrequest ⊢
  rcases hrequest with ⟨hpool, hconsumer, hlist⟩
  rcases d with ⟨path, r, _ | nodes⟩
  · exact ⟨hpool, hconsumer, hlist⟩
  · exact ⟨hpool, hconsumer, hnodes⟩

end Decision

theorem NodeRequest.path_of_decode {path : String} {data : Bytes} {r : NodeRequest}
    (h : decode path data = .ok r) : r.path = some path := by
  unfold decode at h
  split at h
  · cases h
  · split at h
    · cases h
    · cases h
      rfl

namespace Scheduler

variable {perRequest : Nat} {store after : Store} {paths : List String}
  {ready : Table String (List String)} {label : String}

/-! ## What is taken -/

/-- The nodes of a label that decisions take, in order. -/
def taken (decisions : List Decision) (label : String) : List String :=
  (decisions.filter (·.request.poolLabel = label)).flatMap Decision.nodes

/-- What was ready of a label is what a plan takes of it, and behind it what is left. -/
theorem stock_eq_taken (paths : List String) (ready : Table String (List String)) (label : String) :
    stock ready label = taken (plan perRequest store paths ready).decisions label ++
      stock (plan perRequest store paths ready).ready label := by
  induction paths generalizing ready with
  | nil => rfl
  | cons path rest ih =>
      rcases plan_cases path rest ready with ⟨-, hplan⟩ | ⟨e, -, hplan⟩ | ⟨r, -, -, hplan⟩
      · rw [hplan]
        exact ih ready
      · rw [hplan]
        rfl
      · rw [hplan]
        dsimp only
        have hrest := ih (takeNodes ready r.poolLabel
          (grant? perRequest ((ready.get? r.poolLabel).getD [])))
        unfold taken
        by_cases hlabel : r.poolLabel = label
        · -- the request takes from this label before all later ones
          subst hlabel
          rw [List.filter_cons_of_pos (by simp), List.flatMap_cons, List.append_assoc]
          exact (stock_eq_grant perRequest ready r.poolLabel).trans
            (congrArg (_ ++ ·) hrest)
        · rw [List.filter_cons_of_neg (by simpa using hlabel)]
          rw [stock_takeNodes_of_ne ready _ (Ne.symm hlabel)] at hrest
          exact hrest

/-- A request gets nodes that were ready for its label. -/
theorem nodes_sublist {d : Decision} (hd : d ∈ (plan perRequest store paths ready).decisions) :
    d.nodes.Sublist (stock ready d.request.poolLabel) := by
  have hmem : d ∈ (plan perRequest store paths ready).decisions.filter
      (·.request.poolLabel = d.request.poolLabel) := List.mem_filter.2 ⟨hd, by simp⟩
  rcases List.append_of_mem hmem with ⟨earlier, later, hlist⟩
  have htaken : d.nodes.Sublist
      (taken (plan perRequest store paths ready).decisions d.request.poolLabel) := by
    unfold taken
    rw [hlist, List.flatMap_append, List.flatMap_cons]
    exact (List.sublist_append_left _ _).trans (List.sublist_append_right _ _)
  have hstock : stock ready d.request.poolLabel =
      taken (plan perRequest store paths ready).decisions d.request.poolLabel ++
        stock (plan perRequest store paths ready).ready d.request.poolLabel :=
    stock_eq_taken paths ready d.request.poolLabel
  rw [hstock]
  exact htaken.trans (List.sublist_append_left _ _)

/-- A request gets as many nodes as it needs, or it fails. -/
theorem length_nodes {d : Decision} (hd : d ∈ (plan perRequest store paths ready).decisions)
    {nodes : List String} (hnodes : d.nodes? = some nodes) : nodes.length = perRequest := by
  induction paths generalizing ready with
  | nil => cases hd
  | cons path rest ih =>
      rcases plan_cases path rest ready with ⟨-, hplan⟩ | ⟨e, -, hplan⟩ | ⟨r, -, -, hplan⟩
      · exact ih (hplan ▸ hd)
      · rw [hplan] at hd
        cases hd
      · rw [hplan] at hd
        rcases List.mem_cons.1 hd with rfl | hlater
        · dsimp only at hnodes
          unfold grant? at hnodes
          split at hnodes
          · cases hnodes
          · cases hnodes
            rw [List.length_take]
            omega
        · exact ih hlater

/-! ## What is recorded -/

/-- Whether no ready node has an empty id, which could not be read back. -/
def NoneEmpty (ready : Table String (List String)) : Prop := ∀ label, "" ∉ stock ready label

/-- What a pass decides about a request is what the store then records. -/
theorem request?_of_decided (s : Scheduler) (hs : NoneEmpty s.ready) {d : Decision}
    (hd : d ∈ (s.passPlan store perRequest).decisions) :
    (s.runOnce store perRequest).state.2.request? d.path = some (.ok d.record) := by
  rcases request?_of_mem_plan hd with ⟨hrequest, -⟩
  have hdata := get?_carryOut_eq (s.nodup_passPlan store perRequest) hd hrequest
  rcases Option.map_eq_some_iff.1 hrequest with ⟨data, -, hdecode⟩
  have hnodes : "" ∉ d.nodes := fun hmem => hs _ ((nodes_sublist hd).subset hmem)
  have hread := NodeRequest.decode_encode
    (Decision.emptyPart?_record (NodeRequest.emptyPart?_of_decode hdecode) hnodes) d.path
  have hpath : d.record.path = some d.path :=
    d.record_path.trans (NodeRequest.path_of_decode hdecode)
  rw [runOnce_eq]
  change ((store.carryOut (s.passPlan store perRequest).decisions).get? d.path).map _ = _
  rw [hdata, Option.map_some, hread, ← hpath]

/-- A pass leaves every entry alone that it does not decide about. -/
theorem entry_of_not_decided (s : Scheduler) {path : String}
    (hpath : path ∉ (s.passPlan store perRequest).decisions.map (·.path)) :
    (s.runOnce store perRequest).state.2.entries.get? path = store.entries.get? path := by
  rw [runOnce_eq]
  exact get?_carryOut_of_not_mem hpath store

theorem get?_of_not_decided (s : Scheduler) {path : String}
    (hpath : path ∉ (s.passPlan store perRequest).decisions.map (·.path)) :
    (s.runOnce store perRequest).state.2.get? path = store.get? path := by
  unfold Store.get?
  rw [s.entry_of_not_decided hpath]

/-- Where decisions are recorded and all else is left alone, the nodes that have been allocated are
those of the decisions. -/
theorem allocations_plan (hpaths : paths.Nodup)
    (hdecided : ∀ d ∈ (plan perRequest store paths ready).decisions,
      after.request? d.path = some (.ok d.record))
    (hkept : ∀ path ∈ paths, path ∉ (plan perRequest store paths ready).decisions.map (·.path) →
      after.request? path = store.request? path) :
    store.allocations after paths =
      (plan perRequest store paths ready).decisions.flatMap Decision.allocations := by
  unfold Store.allocations
  induction paths generalizing ready with
  | nil => rfl
  | cons path rest ih =>
      rcases List.nodup_cons.1 hpaths with ⟨hpath, hrest⟩
      rw [List.flatMap_cons]
      rcases plan_cases path rest ready with ⟨hold, hplan⟩ | ⟨e, hrefused, hplan⟩ |
        ⟨r, hrequest, hstate, hplan⟩
      · rw [hplan] at hdecided hkept ⊢
        -- a request that is not new is not decided about
        have hnot : path ∉ (plan perRequest store rest ready).decisions.map (·.path) := by
          intro hmem
          rcases List.mem_map.1 hmem with ⟨d, hd, rfl⟩
          rcases request?_of_mem_plan hd with ⟨hrequest, hstate⟩
          rcases hold _ hrequest with ⟨_, ⟨⟩, hnot⟩
          exact hnot hstate
        rw [Store.fulfilledAt_of_eq (hkept path List.mem_cons_self hnot), List.nil_append]
        exact ih hrest hdecided fun q hq => hkept q (List.mem_cons_of_mem _ hq)
      · rw [hplan] at hkept ⊢
        have hnone : ∀ q ∈ rest, store.fulfilledAt after q = [] := fun q hq =>
          Store.fulfilledAt_of_eq (hkept q (List.mem_cons_of_mem _ hq) List.not_mem_nil)
        rw [Store.fulfilledAt_of_eq (hkept path List.mem_cons_self List.not_mem_nil),
          List.nil_append, List.flatMap_eq_nil_iff.2 hnone]
        rfl
      · rw [hplan] at hdecided hkept ⊢
        rcases List.forall_mem_cons.1 hdecided with ⟨hfirst, hlater⟩
        rw [List.flatMap_cons]
        congr 1
        · -- the request was new, and its record is that of the decision
          unfold Store.fulfilledAt
          rw [hrequest, hfirst]
          dsimp only
          generalize grant? perRequest _ = nodes?
          cases nodes? with
          | none => exact if_neg (fun h => nomatch h.2)
          | some nodes => exact if_pos ⟨hstate, rfl⟩
        · refine ih hrest hlater fun q hq hnot => hkept q (List.mem_cons_of_mem _ hq) ?_
          intro hmem
          rcases List.mem_cons.1 hmem with rfl | hmem
          · exact hpath hq
          · exact hnot hmem

/-- The nodes that a pass allocates are those of its decisions. -/
theorem allocations_runOnce (s : Scheduler) (hs : NoneEmpty s.ready) (store : Store)
    (perRequest : Nat) :
    store.allocations (s.runOnce store perRequest).state.2 (store.children s.requestRoot) =
      (s.passPlan store perRequest).decisions.flatMap Decision.allocations :=
  allocations_plan (store.nodup_children s.requestRoot) (fun _ hd => request?_of_decided s hs hd)
    fun path _ hnot => congrArg (Option.map (NodeRequest.decode path)) (get?_of_not_decided s hnot)

theorem allocations_of_label (decisions : List Decision) (label : String) :
    ((decisions.flatMap Decision.allocations).filter (·.request.poolLabel = label)).map (·.node) =
      taken decisions label := by
  induction decisions with
  | nil => rfl
  | cons d rest ih =>
      unfold taken at ih ⊢
      rw [List.flatMap_cons, List.filter_append, List.map_append, ih]
      -- all allocations of a decision have its label, or none has
      have hsame : ∀ a ∈ d.allocations, a.request.poolLabel = d.request.poolLabel := by
        intro a ha
        rcases List.mem_map.1 ha with ⟨node, -, rfl⟩
        exact d.record_poolLabel
      by_cases hlabel : d.request.poolLabel = label
      · rw [List.filter_cons_of_pos (by simpa using hlabel), List.flatMap_cons,
          List.filter_eq_self.2 fun a ha => by simpa using (hsame a ha).trans hlabel]
        congr 1
        unfold Decision.allocations
        rw [List.map_map]
        exact List.map_id _
      · rw [List.filter_cons_of_neg (by simpa using hlabel),
          List.filter_eq_nil_iff.2 fun a ha => by
            simpa using fun h => hlabel ((hsame a ha).symm.trans h)]
        rfl

/-- What was ready of a label before a pass is what the pass has recorded in the store as allocated,
and behind it what is still ready, however the pass ends. -/
theorem readyNodes_runOnce (s : Scheduler) (hs : NoneEmpty s.ready) (store : Store)
    (perRequest : Nat) (label : String) :
    let pass := s.runOnce store perRequest
    s.readyNodes label =
      ((store.allocations pass.state.2 (store.children s.requestRoot)).filter
        (·.request.poolLabel = label)).map (·.node) ++ pass.state.1.readyNodes label := by
  intro pass
  rw [allocations_runOnce s hs, allocations_of_label]
  have hready : pass.state.1.readyNodes label = stock (s.passPlan store perRequest).ready label :=
    congrArg (·.state.1.readyNodes label) (runOnce_eq s store perRequest)
  rw [hready]
  exact stock_eq_taken _ s.ready label

end Scheduler

end FencedPool
