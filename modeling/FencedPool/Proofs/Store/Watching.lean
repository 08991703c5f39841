import FencedPool.Proofs.Store.Causes

/-!
# Watching — a watch delivers the first change of its entry, once

A watch is pending until the entry at its path is created, written or deleted, and then resolves
with that event.  Later changes are not noticed, and the event can be taken once.  What resolves it
is the first change in the run, whoever makes it.

A scheduler makes several writes in one action, so runs are taken apart into single operations
first.

This file defines:

* `Service.firstChange?` — the first thing that a run makes of an entry;
* `Service.receivedAlong` — the events that are taken from a watch in a run;
* `Service.Unfolds` — a run taken apart into single operations;
* `Delivery` — how far a watch has come.

The main statement is `watch_delivers`.
-/

namespace FencedPool

/-! ## Single operations -/

def ServiceAction.isWrite : ServiceAction → Bool
  | .put .. | .setData .. => true
  | _ => false

namespace Service

/-- A run taken apart into single operations: in the place of a scheduler stand writes that come to
the same. -/
inductive Unfolds : Service → List ServiceAction → List ServiceAction → Prop
  | nil (s : Service) : Unfolds s [] []
  | single {s : Service} {a : ServiceAction} {rest ops : List ServiceAction}
      (hsingle : a.isSingle = true) (hrest : Unfolds (s.act a) rest ops) :
      Unfolds s (a :: rest) (a :: ops)
  | writes {s : Service} {a : ServiceAction} {writes rest ops : List ServiceAction}
      (hseveral : a.isSingle = false) (hwrites : ∀ op ∈ writes, op.isWrite = true)
      (hafter : s.after writes = s.act a) (hrest : Unfolds (s.act a) rest ops) :
      Unfolds s (a :: rest) (writes ++ ops)

/-- The first thing that a run makes of the entry at a path. -/
def firstChange? (s : Service) (p : String) : List ServiceAction → Option WatchEvent
  | [] => none
  | a :: rest => (s.change? a p).or ((s.act a).firstChange? p rest)

end Service

/-! ## Watches -/

namespace Watch

/-- The event that waits to be taken. -/
def event? (w : Watch) : Option WatchEvent :=
  match w.state with
  | .resolved event => some event
  | _ => none

/-- What an action does to a watch itself. -/
def handled (w : Watch) (i : WatchId) : ServiceAction → Watch
  | .poll j => if j = i then w.take else w
  | .dropWatch j => if j = i then w.drop else w
  | _ => w

theorem handled_path (w : Watch) (i : WatchId) (a : ServiceAction) :
    (w.handled i a).path = w.path := by
  cases a with
  | poll j =>
      unfold handled take
      dsimp only
      split
      · split <;> rfl
      · rfl
  | dropWatch j =>
      unfold handled drop
      dsimp only
      split <;> rfl
  | _ => rfl

end Watch

namespace Service

/-- The event that an action takes from a watch. -/
def received? (s : Service) (i : WatchId) : ServiceAction → Option WatchEvent
  | .poll j => if j = i then (s.store.watches[i]?).bind (·.event?) else none
  | _ => none

/-- The events that a run takes from a watch. -/
def receivedAlong (s : Service) (i : WatchId) : List ServiceAction → List WatchEvent
  | [] => []
  | a :: rest => (s.received? i a).toList ++ (s.act a).receivedAlong i rest

end Service

/-- How far a watch has come, by the first change of its entry: it is pending as long as there is
none, and afterwards its event is waiting or has been received once. -/
inductive Delivery : Option WatchEvent → List WatchEvent → WatchState → Prop
  | pending : Delivery none [] .pending
  | resolved (event : WatchEvent) : Delivery (some event) [] (.resolved event)
  | taken (event : WatchEvent) : Delivery (some event) [event] .taken

/-! ## One action -/

/-- A call that does not register a watch tells the watches what it makes of their entries. -/
theorem Session.answer_tracks {s : Store} (hlocks : s.OnlyHeld) (hentries : s.Rooted)
    (id : SessionId) {c : Call} (hc : ∀ path, c ≠ .watch path) :
    Store.Tracks none s (answer id s c).2 := by
  cases c with
  | create stem data => exact Store.createSequential_tracks hentries stem data (some id)
  | read path => exact .of_same rfl rfl
  | isPresent path => exact .of_same rfl rfl
  | delete path => exact s.delete_tracks path
  | acquire path =>
      change Store.Tracks none s (s.acquire path id).2
      rcases Store.acquire_cases hlocks path id with ⟨e, hacquire⟩ | ⟨-, hacquire⟩
      · rw [hacquire]
        exact .of_same rfl rfl
      · rw [hacquire]
        exact .of_same rfl rfl
  | release t =>
      change Store.Tracks none s (s.release t).2
      rw [Store.release_eq hlocks]
      split
      · exact .of_same rfl rfl
      · exact .of_same rfl rfl
  | watch path => exact absurd rfl (hc path)

namespace Service

variable {s : Service} {a : ServiceAction} {i : WatchId} {w : Watch} {p : String}

/-- What an action does to a watch: it is told what becomes of its entry. -/
structure Handles (s : Service) (a : ServiceAction) : Prop where
  watches : ∀ (i : WatchId) (w : Watch), s.store.watches[i]? = some w →
    (s.act a).store.watches[i]? = some ((w.handled i a).told (s.change? a w.path))
  kept : ∀ p, s.change? a p = none → (s.act a).store.entries.get? p = s.store.entries.get? p

theorem Handles.of_tracks (h : Store.Tracks (s.written? a) s.store (s.act a).store)
    (hhandled : ∀ (w : Watch) (i : WatchId), w.handled i a = w) : Handles s a where
  watches i w hw := by
    rw [h.watches, List.getElem?_map, hw, hhandled w i]
    rfl
  kept := h.kept

/-- An action that changes no entry leaves watches to what it does to them itself. -/
theorem Handles.of_entries_eq (hentries : (s.act a).store.entries = s.store.entries)
    (hwritten : s.written? a = none)
    (hwatches : ∀ (i : WatchId) (w : Watch), s.store.watches[i]? = some w →
      (s.act a).store.watches[i]? = some (w.handled i a)) : Handles s a where
  watches i w hw := by
    have hnone : s.change? a w.path = none :=
      Store.change?_of_get?_eq (by rw [hentries]) (by simp [hwritten])
    rw [hwatches i w hw, hnone]
    rfl
  kept p _ := by rw [hentries]

theorem call_handles (hlocks : s.store.OnlyHeld) (hentries : s.store.Rooted) (id : SessionId)
    (c : Call) : Handles s (.call id c) := by
  by_cases hopen : s.store.isSessionOpen id = true
  · have hact : s.act (.call id c) = { s with store := (Session.answer id s.store c).2 } :=
      congrArg Prod.snd (perform_of_open hopen c)
    by_cases hc : ∃ path, c = .watch path
    · rcases hc with ⟨path, rfl⟩
      -- a new watch comes after all others
      have hwatch : (s.act (.call id (.watch path))).store = (s.store.watch path).2 := by
        rw [hact]
        rfl
      refine .of_entries_eq ?_ rfl ?_
      · rw [hwatch]
        exact (s.store.watch_lockChange path).entries
      · intro i w hw
        rw [hwatch]
        rcases s.store.watch_cases path with ⟨e, -, hanswer⟩ | hanswer
        · rw [hanswer]
          exact hw
        · rw [hanswer]
          exact (List.getElem?_append_left (List.getElem?_eq_some_iff.1 hw).1).trans hw
    · refine .of_tracks ?_ fun w i => rfl
      rw [hact]
      exact Session.answer_tracks hlocks hentries id fun path h => hc ⟨path, h⟩
  · have hact : s.act (.call id c) = s := congrArg Prod.snd (perform_of_closed hopen c)
    refine .of_tracks ?_ fun w i => rfl
    rw [hact]
    exact .of_same rfl rfl

/-- Every single operation tells each watch what it makes of its entry. -/
theorem act_handles (s : Service) (hlocks : s.store.OnlyHeld) (hentries : s.store.Rooted)
    (ha : a.isSingle = true) : Handles s a := by
  -- the store is named apart from its clock, so that no clock is ever compared
  rcases s with ⟨store, clock, timeout⟩
  cases a with
  | openSession => exact .of_tracks (.of_same rfl rfl) fun w i => rfl
  | heartbeat id => exact .of_tracks (store.heartbeat_tracks id clock.now) fun w i => rfl
  | closeSession id => exact .of_tracks (store.closeSession_tracks id) fun w i => rfl
  | expire => exact .of_tracks (store.closeAll_tracks _) fun w i => rfl
  | advance d => exact .of_tracks (.of_same rfl rfl) fun w i => rfl
  | setTimeout d => exact .of_tracks (.of_same rfl rfl) fun w i => rfl
  | call id c => exact call_handles hlocks hentries id c
  | put path data => exact .of_tracks (Store.put_tracks hentries path data) fun w i => rfl
  | setData path data => exact .of_tracks (store.setData_tracks path data) fun w i => rfl
  | delete path => exact .of_tracks (store.delete_tracks path) fun w i => rfl
  | poll j =>
      refine .of_entries_eq rfl rfl fun i w hw => ?_
      change (store.watches.modify j (·.take))[i]? = _
      rw [List.getElem?_modify]
      change store.watches[i]? = some w at hw
      rw [hw]
      unfold Watch.handled
      dsimp only
      split <;> rfl
  | dropWatch j =>
      refine .of_entries_eq rfl rfl fun i w hw => ?_
      change (store.watches.modify j (·.drop))[i]? = _
      rw [List.getElem?_modify]
      change store.watches[i]? = some w at hw
      rw [hw]
      unfold Watch.handled
      dsimp only
      split <;> rfl
  | provision scheduler count label => cases ha
  | runOnce scheduler perRequest => cases ha

end Service

/-! ## Delivery -/

namespace Delivery

variable {w : Watch} {change later : Option WatchEvent} {received : List WatchEvent}

/-- A watch that is not pending has been told of the first change already. -/
theorem or_of_settled {state : WatchState} (h : Delivery change received state)
    (hsettled : state ≠ .pending) : change.or later = change := by
  cases h with
  | pending => exact absurd rfl hsettled
  | resolved event => rfl
  | taken event => rfl

/-- Being told of a change matters to a pending watch only. -/
theorem told (h : Delivery change received w.state)
    (hlater : ∀ event, later = some event → event.path = w.path) :
    Delivery (change.or later) received (w.told later).state := by
  cases later with
  | none =>
      rw [Option.or_none]
      exact h
  | some event =>
      have hpath : w.path = event.path := (hlater event rfl).symm
      change Delivery _ _ (w.notify event).state
      by_cases hpending : w.state = .pending
      · rw [hpending] at h
        cases h
        rw [Watch.notify_of_pending hpending hpath]
        exact .resolved event
      · rw [Watch.notify_of_settled hpending, h.or_of_settled hpending]
        exact h

/-- The event is received when it is taken, and there is none to be taken again. -/
theorem take (h : Delivery change received w.state) :
    Delivery change (received ++ w.event?.toList) w.take.state := by
  unfold Watch.event? Watch.take
  generalize hstate : w.state = state at h
  cases h with
  | pending =>
      dsimp only
      rw [hstate]
      exact .pending
  | resolved event => exact .taken event
  | taken event =>
      dsimp only
      rw [hstate]
      exact .taken event

/-- What an action does to a watch that is not dropped keeps account of what has been received. -/
theorem handled {s : Service} {a : ServiceAction} {i : WatchId}
    (h : Delivery change received w.state) (hw : s.store.watches[i]? = some w)
    (hkept : a ≠ .dropWatch i) :
    Delivery change (received ++ (s.received? i a).toList) (w.handled i a).state := by
  cases a with
  | poll j =>
      unfold Service.received? Watch.handled
      dsimp only
      split
      · rw [hw]
        exact h.take
      · rw [Option.toList_none, List.append_nil]
        exact h
  | dropWatch j =>
      have hne : ¬ j = i := by
        rintro rfl
        exact hkept rfl
      unfold Service.received? Watch.handled
      dsimp only
      rw [if_neg hne, Option.toList_none, List.append_nil]
      exact h
  | openSession | heartbeat _ | closeSession _ | expire | advance _ | setTimeout _ | call _ _
  | put _ _ | setData _ _ | delete _ | provision _ _ _ | runOnce _ _ =>
      unfold Service.received? Watch.handled
      dsimp only
      rw [Option.toList_none, List.append_nil]
      exact h

/-- A run of single operations carries a watch on, from how far it has come. -/
theorem after {s : Service} {ops : List ServiceAction} {i : WatchId}
    (h : Delivery change received w.state) (hw : s.store.watches[i]? = some w)
    (hlocks : s.store.LocksSound) (hentries : s.store.EntriesSound)
    (hops : ∀ a ∈ ops, a.isSingle = true ∧ a ≠ .dropWatch i) :
    ∃ w' : Watch, (s.after ops).store.watches[i]? = some w' ∧ w'.path = w.path ∧
      Delivery (change.or (s.firstChange? w.path ops)) (received ++ s.receivedAlong i ops)
        w'.state := by
  induction ops generalizing s w change received with
  | nil =>
      refine ⟨w, hw, rfl, ?_⟩
      unfold Service.firstChange? Service.receivedAlong
      rw [Option.or_none, List.append_nil]
      exact h
  | cons a rest ih =>
      rcases List.forall_mem_cons.1 hops with ⟨⟨hsingle, hkept⟩, hrest⟩
      have hhandles := s.act_handles hlocks.onlyHeld hentries.rooted hsingle
      let next := (w.handled i a).told (s.change? a w.path)
      have hpath : next.path = w.path :=
        ((w.handled i a).told_path _).trans (w.handled_path i a)
      have hnext : Delivery (change.or (s.change? a w.path))
          (received ++ (s.received? i a).toList) next.state := by
        refine (h.handled hw hkept).told fun event hevent => ?_
        rw [Store.path_of_change? hevent, w.handled_path]
      rcases ih hnext (hhandles.watches i w hw) (s.act_locksSound a hlocks)
          (s.act_entriesSound a hentries) hrest with ⟨w', hw', hpath', hdelivery⟩
      refine ⟨w', hw', hpath'.trans hpath, ?_⟩
      rw [hpath, Option.or_assoc, List.append_assoc] at hdelivery
      exact hdelivery

end Delivery

namespace Service

variable {s : Service} {actions ops : List ServiceAction} {i : WatchId} {p : String}

/-- As long as a run has made nothing of an entry, it stands as before. -/
theorem get?_after_of_firstChange?_eq_none (hlocks : s.store.LocksSound)
    (hentries : s.store.EntriesSound) (hops : ∀ a ∈ ops, a.isSingle = true)
    (hnone : s.firstChange? p ops = none) :
    (s.after ops).store.entries.get? p = s.store.entries.get? p := by
  induction ops generalizing s with
  | nil => rfl
  | cons a rest ih =>
      rcases List.forall_mem_cons.1 hops with ⟨hsingle, hrest⟩
      unfold firstChange? at hnone
      rcases Option.or_eq_none_iff.1 hnone with ⟨hfirst, hlater⟩
      have hkept := (s.act_handles hlocks.onlyHeld hentries.rooted hsingle).kept p hfirst
      calc ((s.act a).after rest).store.entries.get? p
          = (s.act a).store.entries.get? p :=
            ih (s.act_locksSound a hlocks) (s.act_entriesSound a hentries) hrest hlater
        _ = s.store.entries.get? p := hkept

/-- The first thing that becomes of an entry that exists is not that it is created. -/
theorem firstChange?_ne_created {entry : Entry} (hentry : s.store.entries.get? p = some entry)
    (q : String) : s.firstChange? p ops ≠ some (.created q) := by
  induction ops generalizing s entry with
  | nil => exact nofun
  | cons a rest ih =>
      unfold firstChange? change? Store.change?
      rw [hentry]
      cases hafter : (s.act a).store.entries.get? p with
      | none => exact nofun
      | some entry' =>
          dsimp only
          split
          · exact nofun
          · rw [Option.none_or]
            exact ih hafter

/-! ## Taking runs apart -/

theorem exists_writes {a : ServiceAction} (ha : a.isSingle = false) :
    ∃ writes, (∀ op ∈ writes, op.isWrite = true) ∧ s.after writes = s.act a := by
  let P : Store → Prop := fun store =>
    ∃ writes, (∀ op ∈ writes, op.isWrite = true) ∧ s.after writes = { s with store := store }
  have hstart : P s.store := ⟨[], nofun, rfl⟩
  have hmore : ∀ (store : Store) (op : ServiceAction), op.isWrite = true → P store →
      P (act { s with store := store } op).store := by
    rintro store op hop ⟨writes, hwrites, hafter⟩
    refine ⟨writes ++ [op], ?_, ?_⟩
    · intro a ha
      rcases List.mem_append.1 ha with hold | hnew
      · exact hwrites a hold
      · rw [List.mem_singleton.1 hnew]
        exact hop
    · rw [after_append, hafter]
      cases op <;> first | rfl | cases hop
  cases a with
  | provision scheduler count label =>
      exact scheduler.provision_preserves (P := P)
        (fun store path data => hmore store (.put path data) rfl) s.store count label hstart
  | runOnce scheduler perRequest =>
      exact scheduler.runOnce_preserves (P := P)
        (fun store path data => hmore store (.setData path data) rfl) s.store perRequest hstart
  | openSession | heartbeat _ | closeSession _ | expire | advance _ | setTimeout _ | call _ _
  | put _ _ | setData _ _ | delete _ | poll _ | dropWatch _ => cases ha

/-- Every run can be taken apart. -/
theorem exists_unfolds (s : Service) (actions : List ServiceAction) :
    ∃ ops, s.Unfolds actions ops := by
  induction actions generalizing s with
  | nil => exact ⟨[], .nil s⟩
  | cons a rest ih =>
      rcases ih (s.act a) with ⟨ops, hrest⟩
      cases hsingle : a.isSingle with
      | true => exact ⟨a :: ops, .single hsingle hrest⟩
      | false =>
          rcases exists_writes (s := s) hsingle with ⟨writes, hwrites, hafter⟩
          exact ⟨writes ++ ops, .writes hsingle hwrites hafter hrest⟩

theorem Unfolds.after (h : s.Unfolds actions ops) : s.after ops = s.after actions := by
  induction h with
  | nil s => rfl
  | single hsingle hrest ih => exact ih
  | writes hseveral hwrites hafter hrest ih =>
      rw [after_append, hafter]
      exact ih

theorem Unfolds.kept (h : s.Unfolds actions ops) (hactions : ∀ a ∈ actions, a ≠ .dropWatch i) :
    ∀ op ∈ ops, op.isSingle = true ∧ op ≠ .dropWatch i := by
  induction h with
  | nil s => exact nofun
  | single hsingle hrest ih =>
      rcases List.forall_mem_cons.1 hactions with ⟨hfirst, hlater⟩
      exact List.forall_mem_cons.2 ⟨⟨hsingle, hfirst⟩, ih hlater⟩
  | writes hseveral hwrites hafter hrest ih =>
      intro op hop
      rcases List.mem_append.1 hop with hwrite | hlater
      · have hkind := hwrites op hwrite
        cases op with
        | put path data => exact ⟨rfl, nofun⟩
        | setData path data => exact ⟨rfl, nofun⟩
        | _ => cases hkind
      · exact ih (List.forall_mem_cons.1 hactions).2 op hlater

/-- What is known of a watch on a path after a run of single operations since its registration. -/
structure WatchDelivers (s : Service) (i : WatchId) (p : String) (ops : List ServiceAction) :
    Prop where
  /-- it is pending, or has resolved once, with the first change -/
  delivery : ∃ w : Watch, (s.after ops).store.watches[i]? = some w ∧ w.path = p ∧
    Delivery (s.firstChange? p ops) (s.receivedAlong i ops) w.state
  /-- while it is pending, its entry is as it was -/
  unchanged : s.firstChange? p ops = none →
    (s.after ops).store.entries.get? p = s.store.entries.get? p
  /-- an entry that exists is not created -/
  present : s.store.entries.contains p = true → s.firstChange? p ops ≠ some (.created p)
  /-- what counts as a change is brought about by these operations only, and by none that fails -/
  causes : ∀ before a rest, ops = before ++ a :: rest → ∀ event,
    (s.after before).change? a p = some event →
      (s.after before).Causes p a event ∧ (s.after before).refusal? a = none

/-- A new watch is pending and has the next number. -/
theorem getElem?_of_watch {id : SessionId} (hwatch : (s.perform id (.watch p)).1 = .ok i) :
    (s.act (.call id (.watch p))).store.watches[i]? = some { path := p } := by
  change (s.perform id (.watch p)).2.store.watches[i]? = _
  by_cases hopen : s.store.isSessionOpen id = true
  · rw [perform_of_open hopen] at hwatch ⊢
    simp only [Session.answer] at hwatch ⊢
    rcases s.store.watch_cases p with ⟨e, -, hanswer⟩ | hanswer
    · rw [hanswer] at hwatch
      cases hwatch
    · rw [hanswer] at hwatch ⊢
      cases hwatch
      exact List.getElem?_concat_length
  · rw [perform_of_closed hopen] at hwatch
    cases hwatch

theorem watchDelivers {w : Watch} (hw : s.store.watches[i]? = some w)
    (hpending : w.state = .pending) (hlocks : s.store.LocksSound)
    (hentries : s.store.EntriesSound) (hops : ∀ a ∈ ops, a.isSingle = true ∧ a ≠ .dropWatch i) :
    s.WatchDelivers i w.path ops where
  delivery := by
    have hstart : Delivery none [] w.state := by
      rw [hpending]
      exact .pending
    have hafter := hstart.after hw hlocks hentries hops
    rw [Option.none_or, List.nil_append] at hafter
    exact hafter
  unchanged := get?_after_of_firstChange?_eq_none hlocks hentries fun a ha => (hops a ha).1
  present hpresent := by
    rcases Store.contains_iff.1 hpresent with ⟨entry, hentry⟩
    exact firstChange?_ne_created hentry _
  causes before a rest hsplit event hchange := by
    have hlocks' := after_preserves act_locksSound s before hlocks
    have hentries' := after_preserves act_entriesSound s before hentries
    have hsingle : a.isSingle = true := (hops a (by simp [hsplit])).1
    refine ⟨(s.after before).causes_of_change? hlocks' hentries' hsingle hchange, ?_⟩
    cases hrefusal : (s.after before).refusal? a with
    | none => rfl
    | some e =>
        rw [change?_of_refused hlocks' hentries' hrefusal] at hchange
        cases hchange

end Service

/-- In every store that a run leads to, a watch that is registered and not dropped delivers the
first change of its entry, and that once, whatever is done to the service afterwards. -/
theorem watch_delivers (s : Service) (hs : s.store.Reachable) (id : SessionId) (p : String)
    (i : WatchId) (hwatch : (s.perform id (.watch p)).1 = .ok i) (actions : List ServiceAction)
    (hkept : ∀ a ∈ actions, a ≠ .dropWatch i) :
    let registered := s.act (.call id (.watch p))
    (∃ ops, registered.Unfolds actions ops) ∧
      ∀ ops, registered.Unfolds actions ops →
        registered.after ops = registered.after actions ∧ registered.WatchDelivers i p ops := by
  intro registered
  refine ⟨registered.exists_unfolds actions, fun ops hunfolds => ⟨hunfolds.after, ?_⟩⟩
  exact Service.watchDelivers (Service.getElem?_of_watch hwatch) rfl
    (s.act_locksSound _ hs.locksSound) (s.act_entriesSound _ hs.entriesSound)
    (hunfolds.kept hkept)

/-- A node whose entry exists, with a session that can watch it. -/
def Service.provisioned : Service :=
  (Service.fresh {} .halfMinute).after [.openSession, .put "/nodepool/nodes/1" [0x7B, 0x7D]]

/-- Writing the same data again counts as a change, and the deletion comes too late. -/
theorem watch_delivers_overwritten :
    let registered := Service.provisioned.act (.call ⟨1⟩ (.watch "/nodepool/nodes/1"))
    let actions := [.put "/nodepool/nodes/1" [0x7B, 0x7D], .delete "/nodepool/nodes/1", .poll 0,
      .poll 0]
    registered.WatchDelivers 0 "/nodepool/nodes/1" actions ∧
      registered.receivedAlong 0 actions = [.dataChanged "/nodepool/nodes/1"] := by
  intro registered actions
  have hdelivers := watch_delivers Service.provisioned ⟨{}, .halfMinute, _, rfl⟩ ⟨1⟩
    "/nodepool/nodes/1" 0 (by decide) actions (by simp [actions])
  have hunfolds : registered.Unfolds actions actions :=
    .single rfl (.single rfl (.single rfl (.single rfl (.nil _))))
  exact ⟨(hdelivers.2 actions hunfolds).2, by decide⟩

end FencedPool
