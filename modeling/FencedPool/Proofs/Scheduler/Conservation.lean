import FencedPool.Proofs.Client.Identity
import FencedPool.Proofs.Scheduler.Recording

/-!
# Conservation — no node is lost, and none is allocated twice

The nodes that a scheduler has provisioned for a label are those that its passes have allocated, in
the order in which they were provisioned, and behind them those that are ready.  Provisioning adds
nodes at the end, a pass moves the border, and nothing else that is done to the service or its store
matters.  Since all ids are different, every node is either ready or allocated, once.

What a pass has allocated is not taken from the pass, but from the store before and after it.

This file defines:

* `Inventory` — a scheduler and its service, with all nodes that were provisioned and allocated;
* `Inventory.after` — an inventory after a run, and `Scheduler.Reachable`;
* `Inventory.Balanced` — the invariant of every step;
* `Inventory.Conserves` — what it means for the nodes.

The main statement is `nodes_conserved`.
-/

namespace FencedPool

/-- A step of a run of one scheduler: it provisions nodes or makes a pass, or anything else is done
to the service. -/
inductive SchedulingStep
  | provision (count : Nat) (label : String)
  | pass (perRequest : Nat)
  | act (a : ServiceAction)

/-- A node that provisioning has given, with its label. -/
structure ProvisionedNode where
  label : String
  id : String
  deriving DecidableEq

/-- A scheduler at work on a service, with the nodes that provisioning has given so far, and the
nodes that the passes have allocated. -/
structure Inventory where
  scheduler : Scheduler
  service : Service
  provisioned : List ProvisionedNode := []
  allocated : List Allocation := []

namespace Inventory

def start (c : Config) (service : Service) : Inventory :=
  { scheduler := .new c, service := service }

def step (i : Inventory) : SchedulingStep → Inventory
  | .provision count label =>
      let reply := i.scheduler.provision i.service.store count label
      let ids := reply.answer.toOption.getD []
      { i with
        scheduler := reply.state.1
        service := { i.service with store := reply.state.2 }
        provisioned := i.provisioned ++ ids.map (⟨label, ·⟩) }
  | .pass perRequest =>
      let before := i.service.store
      let reply := i.scheduler.runOnce before perRequest
      { i with
        scheduler := reply.state.1
        service := { i.service with store := reply.state.2 }
        allocated := i.allocated ++
          before.allocations reply.state.2 (before.children i.scheduler.requestRoot) }
  | .act a => { i with service := i.service.act a }

def after (i : Inventory) (steps : List SchedulingStep) : Inventory := steps.foldl step i

def provisionedOf (i : Inventory) (label : String) : List String :=
  (i.provisioned.filter (·.label = label)).map (·.id)

def allocatedOf (i : Inventory) (label : String) : List String :=
  (i.allocated.filter (·.request.poolLabel = label)).map (·.node)

end Inventory

/-- A scheduler as a run can leave it. -/
def Scheduler.Reachable (s : Scheduler) : Prop :=
  ∃ (c : Config) (service : Service) (steps : List SchedulingStep),
    s = ((Inventory.start c service).after steps).scheduler

namespace Scheduler

theorem nodeId_ne_empty (number : Nat) : nodeId number ≠ "" := by
  intro hempty
  refine Text.padded_ne_nil 10 idDigits number ?_
  exact congrArg String.toList hempty

/-- Nodes are stored under the next numbers, which are used up, and nothing becomes ready. -/
theorem storeNodes_numbered (label : String) (count : Nat) (s : Scheduler) (store : Store) :
    ∃ used, (storeNodes label count (s, store)).state.1 = { s with next := s.next + used } ∧
      ∀ ids, (storeNodes label count (s, store)).answer = .ok ids →
        ids = (List.range' s.next used).map nodeId := by
  induction count generalizing s store with
  | zero =>
      refine ⟨0, rfl, ?_⟩
      rintro _ ⟨⟩
      rfl
  | succ count ih =>
      let outcome :=
        store.put (Path.join s.nodeRoot (nodeId s.next)) (nodeRecord s.next label).encode
      rcases ih { s with next := s.next + 1 } outcome.2 with ⟨used, hstate, hids⟩
      unfold storeNodes
      dsimp only
      split
      · exact ⟨1, rfl, nofun⟩
      · refine ⟨used + 1, ?_, ?_⟩
        · rw [Nat.add_comm used 1, ← Nat.add_assoc]
          exact hstate
        · intro ids hanswer
          cases hrest :
              (storeNodes label count ({ s with next := s.next + 1 }, outcome.2)).answer with
          | error e =>
              rw [hrest] at hanswer
              cases hanswer
          | ok rest =>
              rw [hrest] at hanswer
              cases hanswer
              rw [List.range'_succ, List.map_cons, ← hids rest hrest]

theorem provision_of_error {s : Scheduler} {store : Store} {count : Nat} {label : String}
    {e : SchedulerError} (h : (storeNodes label count (s, store)).answer = .error e) :
    s.provision store count label = storeNodes label count (s, store) := by
  simp only [provision, h]

theorem provision_of_ok {s : Scheduler} {store : Store} {count : Nat} {label : String}
    {ids : List String} (h : (storeNodes label count (s, store)).answer = .ok ids) :
    (s.provision store count label).answer = .ok ids ∧
      (s.provision store count label).state.1 =
        (storeNodes label count (s, store)).state.1.addReady label ids := by
  simp only [provision, h, and_self]

/-- Provisioning gives the ids of numbers that have not been used before, and just these nodes
become ready. -/
theorem provision_numbered (s : Scheduler) (store : Store) (count : Nat) (label : String) :
    let reply := s.provision store count label
    let ids := reply.answer.toOption.getD []
    s.next ≤ reply.state.1.next ∧
      (∃ numbers : List Nat, ids = numbers.map nodeId ∧ numbers.Pairwise (· < ·) ∧
        ∀ n ∈ numbers, s.next ≤ n ∧ n < reply.state.1.next) ∧
      ∀ other, reply.state.1.readyNodes other =
        s.readyNodes other ++ if label = other then ids else [] := by
  rcases storeNodes_numbered label count s store with ⟨used, hstate, hids⟩
  dsimp only
  cases hanswer : (storeNodes label count (s, store)).answer with
  | error e =>
      rw [provision_of_error hanswer, hanswer, hstate]
      refine ⟨Nat.le_add_right _ _, ⟨[], rfl, .nil, nofun⟩, fun other => ?_⟩
      change s.readyNodes other = _ ++ if label = other then [] else []
      rw [ite_self, List.append_nil]
  | ok ids =>
      rcases provision_of_ok hanswer with ⟨hgiven, hready⟩
      rw [hgiven, hready, hstate]
      refine ⟨Nat.le_add_right _ _,
        ⟨List.range' s.next used, hids ids hanswer, List.pairwise_lt_range', fun n hn => ?_⟩,
        fun other => ?_⟩
      · exact List.mem_range'_1.1 hn
      · unfold addReady readyNodes
        by_cases hlabel : label = other
        · rw [if_pos hlabel, ← hlabel, Table.get?_insert_self]
          rfl
        · rw [if_neg hlabel, List.append_nil, Table.get?_insert_of_ne _ _ (Ne.symm hlabel)]

end Scheduler

namespace Inventory

/-- The nodes of each label have been allocated in the order of their provisioning, and those that
are left are ready.  All have the ids of different numbers, none of which is used again. -/
structure Balanced (i : Inventory) : Prop where
  border : ∀ label, i.provisionedOf label = i.allocatedOf label ++ i.scheduler.readyNodes label
  numbered : ∃ numbers : List Nat, i.provisioned.map (·.id) = numbers.map Scheduler.nodeId ∧
    numbers.Pairwise (· < ·) ∧ ∀ n ∈ numbers, n < i.scheduler.next

variable {i : Inventory}

theorem balanced_start (c : Config) (service : Service) : (start c service).Balanced where
  border := fun _ => rfl
  numbered := ⟨[], rfl, .nil, nofun⟩

theorem mem_provisionedOf {label id : String} :
    id ∈ i.provisionedOf label ↔ ⟨label, id⟩ ∈ i.provisioned := by
  unfold provisionedOf
  constructor
  · intro hmem
    rcases List.mem_map.1 hmem with ⟨p, hp, rfl⟩
    rcases List.mem_filter.1 hp with ⟨hp, hlabel⟩
    have hsame : p.label = label := by simpa using hlabel
    rw [← hsame]
    exact hp
  · intro hmem
    exact List.mem_map.2 ⟨_, List.mem_filter.2 ⟨hmem, by simp⟩, rfl⟩

theorem mem_allocatedOf {label id : String} :
    id ∈ i.allocatedOf label ↔ ∃ a ∈ i.allocated, a.request.poolLabel = label ∧ a.node = id := by
  unfold allocatedOf
  simp [and_assoc]

/-- Nodes that are provisioned for one label count for this label only. -/
theorem ids_of_label (label other : String) (ids : List String) :
    ((ids.map (ProvisionedNode.mk label)).filter (·.label = other)).map (·.id) =
      if label = other then ids else [] := by
  rw [List.filter_map, List.map_map]
  by_cases hlabel : label = other
  · rw [if_pos hlabel, List.filter_eq_self.2 fun _ _ => by simpa using hlabel]
    exact List.map_id _
  · rw [if_neg hlabel, List.filter_eq_nil_iff.2 fun _ _ => by simpa using hlabel]
    rfl

namespace Balanced

theorem mem_provisioned_of_ready (h : i.Balanced) {label id : String}
    (hid : id ∈ i.scheduler.readyNodes label) : ⟨label, id⟩ ∈ i.provisioned := by
  refine mem_provisionedOf.1 ?_
  rw [h.border]
  exact List.mem_append_right _ hid

theorem mem_provisioned_of_allocated (h : i.Balanced) {a : Allocation} (ha : a ∈ i.allocated) :
    ⟨a.request.poolLabel, a.node⟩ ∈ i.provisioned := by
  refine mem_provisionedOf.1 ?_
  rw [h.border]
  exact List.mem_append_left _ (mem_allocatedOf.2 ⟨a, ha, rfl, rfl⟩)

/-- A ready node has the id of a number, so the id is not empty. -/
theorem noneEmpty (h : i.Balanced) : Scheduler.NoneEmpty i.scheduler.ready := by
  intro label hmem
  rcases h.numbered with ⟨numbers, hids, -⟩
  have hprovisioned : "" ∈ i.provisioned.map (·.id) :=
    List.mem_map.2 ⟨_, h.mem_provisioned_of_ready hmem, rfl⟩
  rw [hids] at hprovisioned
  rcases List.mem_map.1 hprovisioned with ⟨n, -, hempty⟩
  exact Scheduler.nodeId_ne_empty n hempty

theorem nodup_ids (h : i.Balanced) : (i.provisioned.map (·.id)).Nodup := by
  rcases h.numbered with ⟨numbers, hids, hascending, -⟩
  rw [hids]
  refine List.Nodup.map (fun n m => Text.padded_injective) ?_
  exact hascending.imp Nat.ne_of_lt

theorem provision (h : i.Balanced) (count : Nat) (label : String) :
    (i.step (.provision count label)).Balanced := by
  rcases h.numbered with ⟨numbers, hids, hascending, hused⟩
  rcases i.scheduler.provision_numbered i.service.store count label with
    ⟨hnext, ⟨later, hlater, hascending', hrange⟩, hready⟩
  constructor
  · intro other
    change (((i.provisioned ++ _).filter _).map _ : List String) = i.allocatedOf other ++ _
    rw [List.filter_append, List.map_append]
    change i.provisionedOf other ++ _ = _
    rw [h.border, List.append_assoc]
    congr 1
    refine Eq.trans ?_ (hready other).symm
    congr 1
    exact ids_of_label label other _
  · refine ⟨numbers ++ later, ?_, ?_, ?_⟩
    · change (i.provisioned ++ _).map _ = _
      rw [List.map_append, hids, List.map_append, ← hlater, List.map_map]
      congr 1
      exact List.map_id _
    · refine List.pairwise_append.2 ⟨hascending, hascending', fun n hn m hm => ?_⟩
      exact Nat.lt_of_lt_of_le (hused n hn) (hrange m hm).1
    · intro n hn
      rcases List.mem_append.1 hn with hn | hn
      · exact Nat.lt_of_lt_of_le (hused n hn) hnext
      · exact (hrange n hn).2

/-- A pass moves the border between what is allocated and what is ready. -/
theorem pass (h : i.Balanced) (perRequest : Nat) : (i.step (.pass perRequest)).Balanced := by
  constructor
  · intro label
    change i.provisionedOf label = ((i.allocated ++ _).filter _).map _ ++ _
    rw [List.filter_append, List.map_append, List.append_assoc, h.border]
    congr 1
    exact i.scheduler.readyNodes_runOnce h.noneEmpty i.service.store perRequest label
  · rcases h.numbered with ⟨numbers, hids, hascending, hused⟩
    refine ⟨numbers, hids, hascending, fun n hn => ?_⟩
    have hnext : (i.scheduler.runOnce i.service.store perRequest).state.1.next =
        i.scheduler.next :=
      congrArg (·.state.1.next) (i.scheduler.runOnce_eq i.service.store perRequest)
    exact Nat.lt_of_lt_of_eq (hused n hn) hnext.symm

theorem step (h : i.Balanced) (s : SchedulingStep) : (i.step s).Balanced := by
  cases s with
  | provision count label => exact h.provision count label
  | pass perRequest => exact h.pass perRequest
  | act a => exact ⟨h.border, h.numbered⟩

theorem after (h : i.Balanced) (steps : List SchedulingStep) : (i.after steps).Balanced := by
  induction steps generalizing i with
  | nil => exact h
  | cons s rest ih => exact ih (h.step s)

end Balanced

/-! ## What becomes of a node -/

/-- Whether a provisioned node is ready, once and for its own label only, and has never been
allocated. -/
structure IsReady (i : Inventory) (p : ProvisionedNode) : Prop where
  once : (i.scheduler.readyNodes p.label).count p.id = 1
  only : ∀ label, label ≠ p.label → p.id ∉ i.scheduler.readyNodes label
  unallocated : ∀ a ∈ i.allocated, a.node ≠ p.id

/-- Whether a provisioned node is not ready any more and has been allocated by one pass to one
request, which is for its label. -/
structure IsAllocated (i : Inventory) (p : ProvisionedNode) : Prop where
  taken : ∀ label, p.id ∉ i.scheduler.readyNodes label
  once : ∃ a, i.allocated.filter (·.node = p.id) = [a] ∧ a.request.poolLabel = p.label

/-- What holds of the nodes at every moment, and of every pass that is made then. -/
structure Conserves (i : Inventory) : Prop where
  /-- provisioning never gives an id again -/
  new : (i.provisioned.map (·.id)).Nodup
  kept : ∀ p ∈ i.provisioned, i.IsReady p ∨ i.IsAllocated p
  /-- nothing else is ready or has been allocated -/
  ready_provisioned : ∀ label, ∀ id ∈ i.scheduler.readyNodes label, ⟨label, id⟩ ∈ i.provisioned
  allocated_provisioned : ∀ a ∈ i.allocated, ⟨a.request.poolLabel, a.node⟩ ∈ i.provisioned
  /-- however a pass ends, what it takes is in the records of requests that it fulfills -/
  recorded : ∀ perRequest label,
    let before := i.service.store
    let pass := i.scheduler.runOnce before perRequest
    i.scheduler.readyNodes label =
      ((before.allocations pass.state.2 (before.children i.scheduler.requestRoot)).filter
        (·.request.poolLabel = label)).map (·.node) ++ pass.state.1.readyNodes label
  /-- a record that a pass writes without fulfilling the request keeps the list that it had -/
  spared : ∀ perRequest path,
    let before := i.service.store
    let after := (i.scheduler.runOnce before perRequest).state.2
    after.get? path = before.get? path ∨
      ∃ old r, before.request? path = some (.ok old) ∧ after.request? path = some (.ok r) ∧
        path ∈ before.children i.scheduler.requestRoot ∧ old.state = .requested ∧
        (r.state = .fulfilled ∨ r.state = .failed ∧ r.allocatedNodes = old.allocatedNodes)

/-- An element whose image is the image of no other one is the only one with this image. -/
theorem filter_eq_singleton {l : List Allocation} {f : Allocation → String}
    (h : (l.map f).Nodup) {a : Allocation} (ha : a ∈ l) : l.filter (f · = f a) = [a] := by
  rcases List.append_of_mem ha with ⟨earlier, later, rfl⟩
  rw [List.map_append, List.map_cons] at h
  have hnot : f a ∉ earlier.map f ++ later.map f := (List.nodup_cons.1 (List.nodup_middle.1 h)).1
  rw [← List.map_append] at hnot
  have hother : ∀ b ∈ earlier ++ later, f b ≠ f a := fun b hb hsame =>
    hnot (List.mem_map.2 ⟨b, hb, hsame⟩)
  rw [List.filter_append, List.filter_cons_of_pos (by simp),
    List.filter_eq_nil_iff.2 fun b hb => by simpa using hother b (List.mem_append_left _ hb),
    List.filter_eq_nil_iff.2 fun b hb => by simpa using hother b (List.mem_append_right _ hb),
    List.nil_append]

namespace Balanced

theorem label_unique (h : i.Balanced) {label : String} {p : ProvisionedNode}
    (hp : p ∈ i.provisioned) (hmem : ⟨label, p.id⟩ ∈ i.provisioned) : label = p.label :=
  congrArg ProvisionedNode.label (List.inj_on_of_nodup_map h.nodup_ids hmem hp rfl)

theorem nodup_provisionedOf (h : i.Balanced) (label : String) : (i.provisionedOf label).Nodup :=
  h.nodup_ids.sublist (List.filter_sublist.map _)

/-- On either side of the border a node is there once, and on one side only. -/
theorem kept (h : i.Balanced) {p : ProvisionedNode} (hp : p ∈ i.provisioned) :
    i.IsReady p ∨ i.IsAllocated p := by
  have hnodup := h.nodup_provisionedOf p.label
  have hmem : p.id ∈ i.provisionedOf p.label := mem_provisionedOf.2 hp
  rw [h.border] at hnodup hmem
  rcases List.nodup_append.1 hnodup with ⟨hallocated, hready, hdisjoint⟩
  have honly : ∀ label, p.id ∈ i.scheduler.readyNodes label → label = p.label := fun label hid =>
    h.label_unique hp (h.mem_provisioned_of_ready hid)
  have hto : ∀ a ∈ i.allocated, a.node = p.id → a.request.poolLabel = p.label := by
    intro a ha hnode
    have hprovisioned := h.mem_provisioned_of_allocated ha
    rw [hnode] at hprovisioned
    exact h.label_unique hp hprovisioned
  rcases List.mem_append.1 hmem with hid | hid
  · refine .inr ⟨fun label hid' => ?_, ?_⟩
    · have hsame := honly label hid'
      subst hsame
      exact hdisjoint _ hid _ hid' rfl
    · rcases mem_allocatedOf.1 hid with ⟨a, ha, hlabel, hnode⟩
      refine ⟨a, ?_, hlabel⟩
      -- all allocations of this node are among those for its label
      have hsame : i.allocated.filter (·.node = p.id) =
          (i.allocated.filter (·.request.poolLabel = p.label)).filter (·.node = a.node) := by
        rw [List.filter_filter, hnode]
        refine List.filter_congr fun b hb => ?_
        by_cases hb' : b.node = p.id
        · simp [hb', hto b hb hb']
        · simp [hb']
      rw [hsame]
      exact filter_eq_singleton hallocated (List.mem_filter.2 ⟨ha, by simpa using hlabel⟩)
  · refine .inl ⟨List.count_eq_one_of_mem hready hid, fun label hne hid' => ?_,
      fun a ha hnode => ?_⟩
    · exact hne (honly label hid')
    · exact hdisjoint _ (mem_allocatedOf.2 ⟨a, ha, hto a ha hnode, hnode⟩) _ hid rfl

theorem spared (h : i.Balanced) (perRequest : Nat) (path : String) :
    let before := i.service.store
    let after := (i.scheduler.runOnce before perRequest).state.2
    after.get? path = before.get? path ∨
      ∃ old r, before.request? path = some (.ok old) ∧ after.request? path = some (.ok r) ∧
        path ∈ before.children i.scheduler.requestRoot ∧ old.state = .requested ∧
        (r.state = .fulfilled ∨ r.state = .failed ∧ r.allocatedNodes = old.allocatedNodes) := by
  intro before after
  by_cases hdecided :
      path ∈ (i.scheduler.passPlan before perRequest).decisions.map (·.path)
  · rcases List.mem_map.1 hdecided with ⟨d, hd, rfl⟩
    rcases Scheduler.request?_of_mem_plan hd with ⟨hrequest, hstate⟩
    have hchild := (Scheduler.paths_plan_sublist _ _).subset hdecided
    refine .inr ⟨d.request, d.record, hrequest,
      i.scheduler.request?_of_decided h.noneEmpty hd, hchild, hstate, ?_⟩
    rcases d.record_cases with ⟨hfulfilled, -⟩ | ⟨hfailed, -, hlist⟩
    · exact .inl hfulfilled
    · exact .inr ⟨hfailed, hlist⟩
  · exact .inl (i.scheduler.get?_of_not_decided hdecided)

end Balanced

end Inventory

/-- In every run of a scheduler, whatever else is done to the service, each node that has been
provisioned is ready once, or has been allocated once to a request for its label, and no pass takes
a node without recording it. -/
theorem nodes_conserved (c : Config) (service : Service) (steps : List SchedulingStep) :
    ((Inventory.start c service).after steps).Conserves := by
  have h := (Inventory.balanced_start c service).after steps
  constructor
  · exact h.nodup_ids
  · exact fun p hp => h.kept hp
  · exact fun label id hid => h.mem_provisioned_of_ready hid
  · exact fun a ha => h.mem_provisioned_of_allocated ha
  · exact fun perRequest label =>
      Scheduler.readyNodes_runOnce _ h.noneEmpty _ perRequest label
  · exact h.spared

end FencedPool
