import FencedPool.Proofs.Store.Entries
import FencedPool.Scheduler

/-!
# Pass — one pass over the requests, decided first and carried out afterwards

A pass writes the record of a request before it reads the next one.  Since it overwrites no record
but that of the request it has just read, everything can be read from the store as it was before the
pass, so all decisions can be made first and written down afterwards.

This file defines:

* `Decision` — what becomes of one new request, with its record and its event;
* `Plan` and `Scheduler.plan` — the decisions of a pass;
* `Scheduler.stock` — the nodes of a label that are ready, and `Scheduler.left`, what a request
  leaves of them;
* `Store.carryOut` — writing down decisions.

The main statement is `Scheduler.runOnce_eq`: a pass carries out its plan.
-/

namespace FencedPool

/-- What becomes of a new request: the nodes it gets, or none when there are too few. -/
structure Decision where
  path : String
  request : NodeRequest
  nodes? : Option (List String)
  deriving DecidableEq

namespace Decision

def record (d : Decision) : NodeRequest :=
  match d.nodes? with
  | none => d.request.withState .failed
  | some nodes => (d.request.withAllocatedNodes nodes).withState .fulfilled

def event (d : Decision) : Event :=
  match d.nodes? with
  | none => .tooFewReady d.path d.request.poolLabel
  | some nodes => .requestFulfilled d.path nodes

end Decision

/-- The decisions of a pass, the record that stopped it, and the nodes that are left ready. -/
structure Plan where
  decisions : List Decision := []
  fault? : Option MalformedRecord := none
  ready : Table String (List String)

namespace Store

variable {s s' : Store} {path : String}

/-- The request that is recorded at a path, if anything is. -/
def request? (s : Store) (path : String) : Option (Except MalformedRecord NodeRequest) :=
  (s.get? path).map (NodeRequest.decode path)

def carryOut (s : Store) (decisions : List Decision) : Store :=
  decisions.foldl (fun s d => (s.setData d.path d.record.encode).2) s

end Store

/-- What a pass gives that carries out a plan. -/
def Plan.carriedOut (plan : Plan) (s : Scheduler) (store : Store) :
    Reply (Scheduler × Store) (Except SchedulerError (List String)) where
  answer :=
    match plan.fault? with
    | none => .ok (plan.decisions.map (·.path))
    | some e => .error (.malformedRecord e)
  state := ({ s with ready := plan.ready }, store.carryOut plan.decisions)
  journal := .ofEvents (plan.decisions.map (·.event))

theorem Plan.answer_carriedOut {plan : Plan} {e : MalformedRecord} (h : plan.fault? = some e)
    (s : Scheduler) (store : Store) :
    (plan.carriedOut s store).answer = .error (.malformedRecord e) := by
  unfold carriedOut
  simp only [h]

theorem Plan.answer_carriedOut_of_none {plan : Plan} (h : plan.fault? = none) (s : Scheduler)
    (store : Store) :
    (plan.carriedOut s store).answer = .ok (plan.decisions.map (·.path)) := by
  unfold carriedOut
  simp only [h]

namespace Scheduler

/-- The nodes that a request gets from those that are ready. -/
def grant? (perRequest : Nat) (ready : List String) : Option (List String) :=
  if perRequest = 0 ∨ ready.length < perRequest then none else some (ready.take perRequest)

/-- Takes nodes from those of a label that are ready. -/
def takeNodes (ready : Table String (List String)) (label : String) :
    Option (List String) → Table String (List String)
  | none => ready.insert label ((ready.get? label).getD [])
  | some nodes => ready.insert label (((ready.get? label).getD []).drop nodes.length)

/-- Decides about the new requests among those at given paths. -/
def plan (perRequest : Nat) (store : Store) :
    List String → Table String (List String) → Plan
  | [], ready => { ready := ready }
  | path :: rest, ready =>
      match store.request? path with
      | none => plan perRequest store rest ready
      | some (.error e) => { fault? := some e, ready := ready }
      | some (.ok r) =>
          if r.state ≠ .requested then plan perRequest store rest ready
          else
            let nodes? := grant? perRequest ((ready.get? r.poolLabel).getD [])
            let later := plan perRequest store rest (takeNodes ready r.poolLabel nodes?)
            { later with decisions := ⟨path, r, nodes?⟩ :: later.decisions }

variable {perRequest : Nat} {store store' : Store}

theorem plan_new {path : String} {r : NodeRequest} (rest : List String)
    (ready : Table String (List String)) (hrequest : store.request? path = some (.ok r))
    (hstate : r.state = .requested) :
    let nodes? := grant? perRequest ((ready.get? r.poolLabel).getD [])
    let later := plan perRequest store rest (takeNodes ready r.poolLabel nodes?)
    plan perRequest store (path :: rest) ready =
      { later with decisions := ⟨path, r, nodes?⟩ :: later.decisions } := by
  have hnot : ¬ r.state ≠ .requested := not_not_intro hstate
  intro nodes? later
  unfold plan
  simp only [hrequest, if_neg hnot]
  rfl

/-- A path without a new request is passed over, or its record stops the pass, or there is a new
request, which is decided about first. -/
theorem plan_cases (path : String) (rest : List String) (ready : Table String (List String)) :
    ((∀ outcome, store.request? path = some outcome → ∃ r, outcome = .ok r ∧ r.state ≠ .requested) ∧
        plan perRequest store (path :: rest) ready = plan perRequest store rest ready) ∨
      (∃ e, store.request? path = some (.error e) ∧
        plan perRequest store (path :: rest) ready = { fault? := some e, ready := ready }) ∨
      ∃ r, store.request? path = some (.ok r) ∧ r.state = .requested ∧
        let nodes? := grant? perRequest ((ready.get? r.poolLabel).getD [])
        let later := plan perRequest store rest (takeNodes ready r.poolLabel nodes?)
        plan perRequest store (path :: rest) ready =
          { later with decisions := ⟨path, r, nodes?⟩ :: later.decisions } := by
  cases hrequest : store.request? path with
  | none =>
      refine .inl ⟨nofun, ?_⟩
      simp only [plan, hrequest]
  | some outcome =>
      cases outcome with
      | error e =>
          refine .inr (.inl ⟨e, rfl, ?_⟩)
          simp only [plan, hrequest]
      | ok r =>
          by_cases hstate : r.state = .requested
          · exact .inr (.inr ⟨r, rfl, hstate, plan_new rest ready hrequest hstate⟩)
          · refine .inl ⟨?_, ?_⟩
            · rintro _ ⟨⟩
              exact ⟨r, rfl, hstate⟩
            · simp only [plan, hrequest, if_pos hstate]

/-- What is decided depends on the records at the given paths only. -/
theorem plan_congr {paths : List String}
    (h : ∀ path ∈ paths, store'.request? path = store.request? path)
    (ready : Table String (List String)) :
    plan perRequest store' paths ready = plan perRequest store paths ready := by
  induction paths generalizing ready with
  | nil => rfl
  | cons path rest ih =>
      rcases List.forall_mem_cons.1 h with ⟨hpath, hrest⟩
      simp only [plan, hpath, ih hrest]

/-! ## What is taken -/

/-- The nodes of a label that are ready. -/
def stock (ready : Table String (List String)) (label : String) : List String :=
  (ready.get? label).getD []

theorem stock_takeNodes_of_ne (ready : Table String (List String)) {label other : String}
    (nodes? : Option (List String)) (h : other ≠ label) :
    stock (takeNodes ready label nodes?) other = stock ready other := by
  unfold stock takeNodes
  cases nodes? with
  | none => rw [Table.get?_insert_of_ne _ _ h]
  | some nodes => rw [Table.get?_insert_of_ne _ _ h]

theorem grant?_eq (perRequest : Nat) (ids : List String) :
    grant? perRequest ids =
      if 0 < perRequest ∧ perRequest ≤ ids.length then some (ids.take perRequest) else none := by
  unfold grant?
  split
  · rw [if_neg (by omega)]
  · rw [if_pos (by omega)]

/-- The nodes that a request leaves of those that are ready for its label. -/
def left (perRequest : Nat) (ids : List String) : List String :=
  if 0 < perRequest ∧ perRequest ≤ ids.length then ids.drop perRequest else ids

/-- A request leaves all nodes of other labels. -/
theorem stock_takeNodes (perRequest : Nat) (ready : Table String (List String))
    (label other : String) :
    stock (takeNodes ready label (grant? perRequest (stock ready label))) other =
      if label = other then left perRequest (stock ready other) else stock ready other := by
  by_cases hsame : label = other
  · subst hsame
    rw [if_pos rfl, grant?_eq]
    unfold left
    split
    · next henough =>
        have hlength : ((stock ready label).take perRequest).length = perRequest := by
          rw [List.length_take, Nat.min_eq_left henough.2]
        unfold takeNodes
        rw [stock, Table.get?_insert_self, hlength]
        rfl
    · unfold takeNodes
      rw [stock, Table.get?_insert_self]
      rfl
  · rw [if_neg hsame, stock_takeNodes_of_ne ready _ (Ne.symm hsame)]

/-- What a request gets stands in front of what is left. -/
theorem stock_eq_grant (perRequest : Nat) (ready : Table String (List String)) (label : String) :
    stock ready label = (grant? perRequest (stock ready label)).getD [] ++
      stock (takeNodes ready label (grant? perRequest (stock ready label))) label := by
  rw [stock_takeNodes, if_pos rfl, grant?_eq]
  unfold left
  split
  · exact (List.take_append_drop perRequest _).symm
  · rfl

/-- Nobody finds more ready nodes of a label than before. -/
theorem length_stock_le (perRequest : Nat) (ready : Table String (List String))
    (label other : String) :
    (stock (takeNodes ready label (grant? perRequest (stock ready label))) other).length ≤
      (stock ready other).length := by
  rw [stock_takeNodes]
  unfold left
  split
  · split
    · rw [List.length_drop]
      exact Nat.sub_le _ _
    · exact Nat.le_refl _
  · exact Nat.le_refl _

/-! ## Carrying out -/

theorem decide_eq (perRequest : Nat) (path : String) (ready : Table String (List String))
    (r : NodeRequest) :
    let nodes? := grant? perRequest ((ready.get? r.poolLabel).getD [])
    let outcome := decide perRequest ((ready.get? r.poolLabel).getD []) r
    outcome.1 = Decision.record ⟨path, r, nodes?⟩ ∧
      ready.insert r.poolLabel outcome.2 = takeNodes ready r.poolLabel nodes? := by
  unfold grant? decide
  by_cases hfew : perRequest = 0 ∨ ((ready.get? r.poolLabel).getD []).length < perRequest
  · simp only [if_pos hfew]
    exact ⟨rfl, rfl⟩
  · simp only [if_neg hfew]
    refine ⟨rfl, ?_⟩
    have hlength : (((ready.get? r.poolLabel).getD []).take perRequest).length = perRequest := by
      rw [List.length_take]
      omega
    simp only [takeNodes, hlength]

theorem event_eq (d : Decision) :
    (if d.record.isFailed then Event.tooFewReady d.path d.request.poolLabel
      else .requestFulfilled d.path d.record.allocatedNodes) = d.event := by
  rcases d with ⟨path, request, _ | nodes⟩ <;> rfl

/-- A record that was read can be overwritten. -/
theorem setData_eq {path : String} {data : Bytes} (h : store.get? path = some data)
    (record : Bytes) : ∃ entry, store.entries.get? path = some entry ∧
      store.setData path record =
        (.ok (), store.write path { entry with data := record } (.dataChanged path)) := by
  unfold Store.get? at h
  split at h
  · next hpath =>
      rcases Option.map_eq_some_iff.1 h with ⟨entry, hentry, -⟩
      refine ⟨entry, hentry, ?_⟩
      unfold Store.setData Store.checkingPath
      simp only [if_pos hpath, hentry]
  · cases h

theorem get?_setData_of_ne {path other : String} (hother : other ≠ path) (record : Bytes) :
    (store.setData path record).2.entries.get? other = store.entries.get? other := by
  unfold Store.setData Store.checkingPath
  split
  · split
    · rw [Store.get?_write, if_neg hother]
    · rfl
  · rfl

theorem request?_setData {path other : String} (hother : other ≠ path) (record : Bytes) :
    (store.setData path record).2.request? other = store.request? other := by
  unfold Store.request? Store.get?
  rw [get?_setData_of_ne hother]

/-- A new request is decided about, and the rest is handled with what is left. -/
theorem handle_new {path : String} {r : NodeRequest} (rest : List String) (s : Scheduler)
    (hrequest : store.request? path = some (.ok r)) (hstate : r.state = .requested) :
    let nodes? := grant? perRequest ((s.ready.get? r.poolLabel).getD [])
    let d : Decision := ⟨path, r, nodes?⟩
    let more := handle perRequest rest
      ({ s with ready := takeNodes s.ready r.poolLabel nodes? }, store.carryOut [d])
    handle perRequest (path :: rest) (s, store) =
      { more with
        answer := more.answer.map (path :: ·)
        journal := { event := d.event } :: more.journal } := by
  rcases Option.map_eq_some_iff.1 hrequest with ⟨data, hdata, hdecode⟩
  rcases decide_eq perRequest path s.ready r with ⟨hrecord, hready⟩
  intro nodes? d more
  rcases setData_eq hdata d.record.encode with ⟨entry, -, hset⟩
  have hnot : ¬ r.state ≠ .requested := not_not_intro hstate
  have hcarried : store.carryOut [d] = (store.setData path d.record.encode).2 := rfl
  rw [hset] at hcarried
  unfold handle
  simp only [hdata, hdecode, if_neg hnot, readyNodes, hrecord, hready]
  rw [event_eq d, hset, ← hcarried]

/-- Handling requests in turn carries out the plan for them. -/
theorem handle_eq {paths : List String} (hpaths : paths.Nodup) (s : Scheduler) (store : Store) :
    handle perRequest paths (s, store) =
      (plan perRequest store paths s.ready).carriedOut s store := by
  induction paths generalizing s store with
  | nil => rfl
  | cons path rest ih =>
      rcases List.nodup_cons.1 hpaths with ⟨hpath, hrest⟩
      cases hrequest : store.request? path with
      | none =>
          have hdata : store.get? path = none := by simpa [Store.request?] using hrequest
          unfold plan handle
          rw [hrequest, hdata]
          exact ih hrest s store
      | some outcome =>
          cases outcome with
          | error e =>
              rcases Option.map_eq_some_iff.1 hrequest with ⟨data, hdata, hdecode⟩
              unfold plan handle
              simp only [hrequest, hdata, hdecode]
              rfl
          | ok r =>
              by_cases hstate : r.state = .requested
              · let nodes? := grant? perRequest ((s.ready.get? r.poolLabel).getD [])
                let d : Decision := ⟨path, r, nodes?⟩
                -- the record that is written is none of those that are read later
                have hlater : ∀ other ∈ rest,
                    (store.carryOut [d]).request? other = store.request? other := by
                  intro other hother
                  refine request?_setData ?_ _
                  rintro rfl
                  exact hpath hother
                rw [handle_new rest s hrequest hstate, ih hrest, plan_congr hlater,
                  plan_new rest s.ready hrequest hstate]
                generalize plan perRequest store rest _ = later
                rcases later with ⟨decisions, _ | e, ready⟩
                · rfl
                · rfl
              · rcases Option.map_eq_some_iff.1 hrequest with ⟨data, hdata, hdecode⟩
                unfold plan handle
                simp only [hrequest, hdata, hdecode, if_pos hstate]
                exact ih hrest s store

/-- The plan of a pass over all requests. -/
def passPlan (s : Scheduler) (store : Store) (perRequest : Nat) : Plan :=
  plan perRequest store (store.children s.requestRoot) s.ready

/-- A pass carries out its plan. -/
theorem runOnce_eq (s : Scheduler) (store : Store) (perRequest : Nat) :
    s.runOnce store perRequest = (s.passPlan store perRequest).carriedOut s store :=
  handle_eq (store.nodup_children s.requestRoot) s store

/-! ## What is decided -/

/-- Requests are decided about in the order in which they are read, each at most once. -/
theorem paths_plan_sublist (paths : List String) (ready : Table String (List String)) :
    ((plan perRequest store paths ready).decisions.map (·.path)).Sublist paths := by
  induction paths generalizing ready with
  | nil => exact List.Sublist.refl []
  | cons path rest ih =>
      rcases plan_cases path rest ready with ⟨-, hplan⟩ | ⟨e, -, hplan⟩ | ⟨r, -, -, hplan⟩
      · rw [hplan]
        exact (ih ready).cons path
      · rw [hplan]
        exact List.nil_sublist _
      · rw [hplan]
        exact (ih _).cons_cons path

theorem nodup_passPlan (s : Scheduler) (store : Store) (perRequest : Nat) :
    ((s.passPlan store perRequest).decisions.map (·.path)).Nodup :=
  (store.nodup_children s.requestRoot).sublist (paths_plan_sublist _ _)

theorem request?_of_mem_plan {paths : List String} {ready : Table String (List String)}
    {d : Decision} (h : d ∈ (plan perRequest store paths ready).decisions) :
    store.request? d.path = some (.ok d.request) ∧ d.request.state = .requested := by
  induction paths generalizing ready with
  | nil => cases h
  | cons path rest ih =>
      rcases plan_cases path rest ready with ⟨-, hplan⟩ | ⟨e, -, hplan⟩ |
        ⟨r, hrequest, hstate, hplan⟩
      · exact ih (hplan ▸ h)
      · rw [hplan] at h
        cases h
      · rw [hplan] at h
        rcases List.mem_cons.1 h with rfl | hlater
        · exact ⟨hrequest, hstate⟩
        · exact ih hlater

/-- Unless a record stops the pass, every new request is decided about. -/
theorem mem_plan_of_request? {paths : List String} {ready : Table String (List String)}
    (hfault : (plan perRequest store paths ready).fault? = none) {path : String}
    (hpath : path ∈ paths) {r : NodeRequest} (hrequest : store.request? path = some (.ok r))
    (hstate : r.state = .requested) :
    ∃ d ∈ (plan perRequest store paths ready).decisions, d.path = path := by
  induction paths generalizing ready with
  | nil => cases hpath
  | cons first rest ih =>
      rcases plan_cases first rest ready with ⟨hold, hplan⟩ | ⟨e, -, hplan⟩ | ⟨q, -, -, hplan⟩
      · rw [hplan] at hfault ⊢
        rcases List.mem_cons.1 hpath with rfl | hpath
        · rcases hold _ hrequest with ⟨_, ⟨⟩, hnot⟩
          exact absurd hstate hnot
        · exact ih hfault hpath
      · rw [hplan] at hfault
        cases hfault
      · rw [hplan] at hfault ⊢
        rcases List.mem_cons.1 hpath with rfl | hpath
        · exact ⟨_, List.mem_cons_self, rfl⟩
        · rcases ih hfault hpath with ⟨d, hd, hdpath⟩
          exact ⟨d, List.mem_cons_of_mem _ hd, hdpath⟩

/-! ## Carrying out decisions -/

/-- Entries that nothing is decided about stay as they are. -/
theorem get?_carryOut_of_not_mem {decisions : List Decision} {path : String}
    (hpath : path ∉ decisions.map (·.path)) (store : Store) :
    (store.carryOut decisions).entries.get? path = store.entries.get? path := by
  induction decisions generalizing store with
  | nil => rfl
  | cons d rest ih =>
      rw [List.map_cons, List.mem_cons, not_or] at hpath
      rcases hpath with ⟨hne, hrest⟩
      change ((store.setData d.path d.record.encode).2.carryOut rest).entries.get? path = _
      rw [ih hrest, get?_setData_of_ne hne]

/-- What has been decided is recorded, in entries that keep their owners. -/
theorem get?_carryOut_of_mem {decisions : List Decision}
    (hpaths : (decisions.map (·.path)).Nodup) {d : Decision} (hd : d ∈ decisions)
    {store : Store} {r : NodeRequest} (hrequest : store.request? d.path = some (.ok r)) :
    ∃ entry, store.entries.get? d.path = some entry ∧
      (store.carryOut decisions).entries.get? d.path =
        some { entry with data := d.record.encode } := by
  induction decisions generalizing store with
  | nil => cases hd
  | cons first rest ih =>
      rcases List.nodup_cons.1 hpaths with ⟨hfirst, hrest⟩
      change ∃ entry, _ ∧
        ((store.setData first.path first.record.encode).2.carryOut rest).entries.get? d.path = _
      rcases List.mem_cons.1 hd with rfl | hd
      · rcases Option.map_eq_some_iff.1 hrequest with ⟨data, hdata, -⟩
        rcases setData_eq hdata d.record.encode with ⟨entry, hentry, hset⟩
        refine ⟨entry, hentry, ?_⟩
        rw [get?_carryOut_of_not_mem hfirst, hset, Store.get?_write, if_pos rfl]
      · have hne : d.path ≠ first.path := by
          intro hsame
          exact hfirst (List.mem_map.2 ⟨d, hd, hsame⟩)
        rw [← request?_setData hne first.record.encode] at hrequest
        rcases ih hrest hd hrequest with ⟨entry, hentry, hlater⟩
        rw [get?_setData_of_ne hne] at hentry
        exact ⟨entry, hentry, hlater⟩

/-- What has been decided can be read afterwards. -/
theorem get?_carryOut_eq {decisions : List Decision} (hpaths : (decisions.map (·.path)).Nodup)
    {d : Decision} (hd : d ∈ decisions) {store : Store} {r : NodeRequest}
    (hrequest : store.request? d.path = some (.ok r)) :
    (store.carryOut decisions).get? d.path = some d.record.encode := by
  rcases get?_carryOut_of_mem hpaths hd hrequest with ⟨entry, -, hentry⟩
  have hpath : Store.isEntryPath d.path = true := by
    rcases Option.map_eq_some_iff.1 hrequest with ⟨data, hdata, -⟩
    unfold Store.get? at hdata
    split at hdata
    · assumption
    · cases hdata
  unfold Store.get?
  rw [if_pos hpath, hentry, Option.map_some]

end Scheduler

end FencedPool
