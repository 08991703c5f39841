import FencedPool.Proofs.Simulation.Consuming
import FencedPool.Proofs.Simulation.Taking
import FencedPool.Proofs.Simulation.Waiting

/-!
# Cycle — what a simulation reports

A simulation fills an empty store with nodes, places a request, lets the scheduler decide about it,
and accepts what it was allocated.  Every step starts from what is known after the one before, and a
simulation ends early for two reasons only: the settings cannot be used, or the scheduler comes upon
a record that it refuses.

This file defines:

* `Simulation.Feasible` — the settings with which no record is refused;
* `Simulation.Reports` — what a report says about a simulation.

The main statement is `simulation_reports`.
-/

namespace FencedPool

open FencedPool.Path

namespace Simulation

open Store

variable {c : Client} {label poolLabel consumerLabel : String} {count : Nat} {s : Store}
  {r : NodeRequest} {record : Bytes}

/-- Whether a simulation can run to its end: no label is empty, and the scheduler does not come upon
nodes when it looks for requests. -/
def Feasible (config : Config) (settings : SimulationSettings) : Prop :=
  (settings.poolLabel ≠ "" ∧ settings.consumerLabel ≠ "") ∧
    (settings.nodes = 0 ∨ config.requestRoot ≠ config.nodeRoot)

/-- What the report of a simulation says. -/
structure Reports (config : Config) (settings : SimulationSettings) (r : SimulationReport) :
    Prop where
  requestPath : r.requestPath = config.requestStem ++ "0000000000"
  requestId : r.requestId = "0000000000"
  requestDeleted : r.requestDeleted = true
  cleanupFailures : r.cleanupFailures = []
  released : r.released = r.accepted.length
  allocated : r.allocated = (List.range' 1 settings.nodes).map (Text.padded 10 10)
  empty : settings.nodes = 0 → r.state = .failed ∧ r.accepted = [] ∧
    r.error = some (PoolError.notAllocated "0000000000").message
  accepted : 0 < settings.nodes → settings.contend = false → r.state = .fulfilled ∧
    r.accepted = (List.range' 1 settings.nodes).map (acceptedNode config) ∧ r.error = none
  /-- the rival is the second session that is opened -/
  contended : 0 < settings.nodes → settings.contend = true → r.state = .fulfilled ∧
    r.accepted = [] ∧ r.error = some (PoolError.lockUnavailable
      (config.nodePath ++ "/" ++ Text.padded 10 10 settings.nodes) ⟨2⟩).message

/-! ## Placing the request -/

/-- The request as it is placed. -/
def requested (c : Config) (settings : SimulationSettings) : NodeRequest :=
  (NodeRequest.new settings.poolLabel settings.consumerLabel).placed (c.requestAt 0)
    (Config.identityAt 0)

/-- A request is placed by the first session, and watched. -/
theorem succeeds_place {settings : SimulationSettings}
    (h : Provisioned c.config settings.poolLabel settings.nodes s) (now : Instant)
    (timeout : Duration) :
    let opened := s.openSession now timeout
    opened.1 = ⟨1⟩ ∧ Succeeds (place c (.plain ⟨1⟩) settings) opened.2 fun placed after =>
      placed.1 = requested c.config settings ∧
        (∃ older, placed.2 = older.length ∧
          after.watches = older ++ [Watch.mk (c.config.requestAt 0) .pending]) ∧
        Waiting c.config settings.poolLabel settings.nodes
          (NodeRequest.new settings.poolLabel settings.consumerLabel).encode after := by
  intro opened
  rcases Client.request_waiting h now timeout settings.poolLabel settings.consumerLabel with
    ⟨hconsumer, hplaced, hwaiting⟩
  rw [hconsumer] at hplaced hwaiting
  have hpath : (requested c.config settings).path = some (c.config.requestAt 0) := rfl
  refine ⟨hconsumer, ?_⟩
  unfold place
  refine (succeeds_onSession _ _ opened.2).bind ?_
  rintro _ store ⟨rfl, rfl⟩
  refine (succeeds_orStop hplaced).bind ?_
  rintro placed _ ⟨rfl, rfl⟩
  rcases Client.watchRequest_run hwaiting.consumer hpath (c.isEntryPath_requestAt 0) with
    ⟨hwatch, hwatched⟩
  have hsound := hwaiting.sound.run ⟨1⟩ (Client.watchRequest (requested c.config settings))
  refine (succeeds_onSession _ _ _).bind ?_
  rintro _ watching ⟨rfl, rfl⟩
  refine (succeeds_orStop hwatch).bind ?_
  rintro _ _ ⟨rfl, rfl⟩
  rw [hwatched] at hsound
  have hwatching := hwaiting.watches _ hsound
  rw [← hwatched] at hwatching
  exact ⟨_, _, rfl, rfl, ⟨_, rfl, congrArg Store.watches hwatched⟩, hwatching⟩

/-! ## Deciding about the request -/

/-- The request as it is accepted. -/
def offered (c : Config) (settings : SimulationSettings) : NodeRequest :=
  { requested c settings with
    allocatedNodes := Scheduler.idsFrom 1 settings.nodes
    state := if settings.nodes = 0 then .failed else .fulfilled }

theorem placed_record (c : Config) (settings : SimulationSettings) :
    (Scheduler.decision c settings.poolLabel settings.consumerLabel settings.nodes).record.placed
      (c.requestAt 0) (Config.identityAt 0) = offered c settings := by
  unfold offered Scheduler.decision Decision.record
  by_cases hnone : settings.nodes = 0
  · simp only [hnone, if_true]
    rfl
  · simp only [if_neg hnone]
    rfl

/-- A pass of the scheduler decides about the request, unless a record stops it. -/
theorem settles_decided {settings : SimulationSettings} {sched : Scheduler} {older : List Watch}
    (h : Waiting c.config settings.poolLabel settings.nodes
      (NodeRequest.new settings.poolLabel settings.consumerLabel).encode s)
    (hwatches : s.watches = older ++ [Watch.mk (c.config.requestAt 0) .pending])
    (hroot : sched.requestRoot = c.config.requestPath)
    (hready : ∀ label, sched.readyNodes label =
      if settings.poolLabel = label then Scheduler.idsFrom 1 settings.nodes else [])
    (hplaced : r.path = some (c.config.requestAt 0)) :
    Settles (decided sched (.plain ⟨1⟩) settings.nodes r older.length) s
      (Feasible c.config settings) fun request after =>
        request = offered c.config settings ∧
          ∃ record, Waiting c.config settings.poolLabel settings.nodes record after := by
  unfold decided
  dsimp only
  constructor
  · rintro ⟨hlabels, hroots⟩
    rcases Scheduler.runOnce_waiting h hroots hlabels hroot hready with
      ⟨hanswer, hrecorded, hwaiting, hnotified⟩
    rw [hwatches] at hnotified
    have hevent := poll_notified hnotified
    refine (succeeds_onScheduler hanswer).bind ?_
    rintro _ _ ⟨rfl, rfl⟩
    generalize (sched.runOnce s settings.nodes).state.2 = after at *
    refine (succeeds_get after).bind ?_
    rintro _ _ ⟨rfl, rfl⟩
    refine (succeeds_set _ _).bind ?_
    rintro _ _ rfl
    rw [if_neg (by rw [hevent]; nofun)]
    have hpolled := hwaiting.poll older.length
    refine (succeeds_onSession _ _ _).bind ?_
    rintro _ _ ⟨rfl, rfl⟩
    rw [Client.refresh_recorded hpolled.consumer hplaced (c.config.identity?_requestAt 0) hrecorded,
      Client.refresh_state hpolled.consumer hplaced (c.config.identity?_requestAt 0), placed_record]
    exact ⟨_, _, rfl, rfl, _, hpolled⟩
  · intro hnot
    simp only [Feasible, not_and_or, not_or, not_not, ← Nat.pos_iff_ne_zero] at hnot
    rcases Scheduler.runOnce_fails h hroot hnot with ⟨e, hfails⟩
    exact (fails_onScheduler hfails).bind _

/-! ## The rival -/

/-- A rival session is opened beside the one that placed the request. -/
theorem offering_of_waiting (h : Waiting c.config label count record s) (now : Instant)
    (timeout : Duration) :
    let opened := s.openSession now timeout
    opened.1 = ⟨2⟩ ∧ opened.2.isSessionOpen ⟨2⟩ = true ∧ opened.2.locks = .empty ∧
      opened.2.grants = 0 ∧ Offering c.config label count opened.2 := by
  intro opened
  have hnumber : opened.1 = ⟨2⟩ := congrArg (fun n => SessionId.mk (n + 1)) h.opened
  refine ⟨hnumber, (isSessionOpen_insert rfl _).2 (.inl hnumber.symm), h.unlocked, h.grants, {
    sound := Sound.act (s := ⟨s, ⟨now⟩, timeout⟩) h.sound .openSession
    consumer := (isSessionOpen_insert rfl _).2 (.inr h.consumer)
    request := ⟨record, h.request⟩
    nodes := h.nodes }⟩

/-- A session takes the lock of a node where nothing is locked. -/
theorem succeeds_holdNode (h : Offering c.config label count s) {id : SessionId}
    (hopen : s.isSessionOpen id = true) (hunlocked : s.locks = .empty) {k : Nat} (hlow : 1 ≤ k)
    (hhigh : k ≤ count) :
    Succeeds (holdNode (.plain id) (c.config.nodeAt k)) s fun _ after =>
      Offering c.config label count after ∧
        ∀ path, after.lockHolder? path = if path = c.config.nodeAt k then some id else none := by
  have hgrant : s.grant? (c.config.nodeAt k) = none := by
    rw [← Option.map_eq_none_iff, ← h.sound.locks.onlyHeld.lockHolder?_eq]
    exact lockHolder?_of_unlocked hunlocked _
  have hacquire : s.acquire (c.config.nodeAt k) id =
      (.ok ⟨c.config.nodeAt k, id, s.grants + 1⟩, s.granting (c.config.nodeAt k) id) := by
    rw [acquire_eq h.sound.locks.onlyHeld, if_pos (c.isEntryPath_nodeAt k),
      if_pos (contains_iff.2 ⟨_, h.nodes k hlow hhigh⟩), hgrant]
  have hrun : ((Procedure.ask (.acquire (c.config.nodeAt k))).run (.plain id) s).answer =
        .ok ⟨c.config.nodeAt k, id, s.grants + 1⟩ ∧
      ((Procedure.ask (.acquire (c.config.nodeAt k))).run (.plain id) s).state =
        s.granting (c.config.nodeAt k) id := by
    change ((Session.plain id).perform _ s).answer = _ ∧ ((Session.plain id).perform _ s).state = _
    rw [Session.plain_perform_of_open hopen]
    simp only [Session.answer]
    rw [hacquire]
    exact ⟨rfl, rfl⟩
  have hsound := h.sound.run id (.ask (.acquire (c.config.nodeAt k)))
  rw [hrun.2] at hsound
  unfold holdNode
  refine (succeeds_onSession _ _ s).bind ?_
  rintro answer after ⟨rfl, rfl⟩
  refine (succeeds_orStop hrun.1).bind ?_
  rintro _ _ ⟨-, rfl⟩
  refine ⟨(), _, rfl, ?_⟩
  rw [hrun.2]
  refine ⟨⟨hsound, h.consumer, h.request, h.nodes⟩, fun path => ?_⟩
  rw [lockHolder?_granting, lockHolder?_of_unlocked hunlocked]

/-- The request can be accepted, and a rival holds the last node where it is contended for. -/
structure Contended (c : Config) (label : String) (count : Nat) (contend : Bool) (s : Store) :
    Prop extends Offering c label count s where
  unlocked : contend = false → s.locks = .empty
  grants : contend = false → s.grants = 0
  held : contend = true → 0 < count → ∀ path,
    s.lockHolder? path = if path = c.nodeAt count then some ⟨2⟩ else none

theorem succeeds_holdLast (h : Offering c.config label count s)
    (hrival : s.isSessionOpen ⟨2⟩ = true) (hunlocked : s.locks = .empty) (hgrants : s.grants = 0)
    (hnodes : r.allocatedNodes = Scheduler.idsFrom 1 count) (contend : Bool) :
    Succeeds (holdLast c.config contend ⟨2⟩ r) s fun _ after =>
      Contended c.config label count contend after := by
  unfold holdLast
  rw [hnodes, Scheduler.getLast?_idsFrom]
  cases contend with
  | false => exact ⟨(), s, rfl, h, fun _ => hunlocked, fun _ => hgrants, nofun⟩
  | true =>
      rw [if_pos rfl]
      by_cases hnone : count = 0
      · rw [if_pos hnone]
        exact ⟨(), s, rfl, h, nofun, nofun, fun _ hsome => absurd hnone (Nat.ne_of_gt hsome)⟩
      · rw [if_neg hnone]
        rcases succeeds_holdNode h hrival hunlocked (by omega) (Nat.le_refl count) with
          ⟨_, after, hrun, hoffering, hholder⟩
        exact ⟨(), after, hrun, hoffering, nofun, nofun, fun _ _ => hholder⟩

/-! ## Accepting the request -/

/-- What is reported of a request, and of what came of accepting it. -/
structure Consumed (c : Config) (r : NodeRequest) (result : Except PoolError (List NodeHandle))
    (report : SimulationReport) : Prop where
  requestPath : report.requestPath = c.requestAt 0
  requestId : report.requestId = r.id.getD ""
  state : report.state = r.state
  allocated : report.allocated = r.allocatedNodes
  accepted : ∀ handles, result = .ok handles →
    report.accepted = handles.map AcceptedNode.ofHandle ∧ report.error = none
  refused : ∀ e, result = .error e → report.accepted = [] ∧ report.error = some e.message
  cleanupFailures : report.cleanupFailures = []
  requestDeleted : report.requestDeleted = true
  released : report.released = report.accepted.length

/-- Whatever comes of accepting the request, it is deleted then and no failure is reported. -/
theorem succeeds_consume (h : Offering c.config label count s)
    (hplaced : r.path = some (c.config.requestAt 0)) :
    Succeeds (consume c (.plain ⟨1⟩) r) s fun report _ =>
      Consumed c.config r ((c.accept r).run (.plain ⟨1⟩) s).answer.result report := by
  rcases h.request with ⟨record, hrequest⟩
  rcases Client.accept_consumes (c := c) h.sound h.consumer hplaced hrequest rfl with
    ⟨hclean, hgone⟩
  have hsound := h.sound.run ⟨1⟩ (c.accept r)
  have hsessions := (Procedure.dialogue_plain ⟨1⟩ (c.accept r) s).sessions
  have hheld := Client.accepted_releasable (c := c) h.sound.locks h.consumer hplaced
  dsimp only at hheld
  unfold consume
  rw [hplaced, Option.getD_some]
  refine (succeeds_onSession (.plain ⟨1⟩) (c.accept r) s).bind ?_
  rintro outcome after ⟨houtcome, hafter⟩
  rw [← hafter] at hgone hsound hsessions hheld
  rw [← houtcome] at hclean hheld ⊢
  have hopen : after.isSessionOpen ⟨1⟩ = true :=
    (isSessionOpen_congr hsessions ⟨1⟩).trans h.consumer
  refine (succeeds_releaseAll hsound.locks hopen hheld.1 hheld.2).bind ?_
  rintro _ later ⟨hentries, hsame⟩
  have hlater : later.isSessionOpen ⟨1⟩ = true := (isSessionOpen_congr hsame ⟨1⟩).trans hopen
  refine (succeeds_onSession _ _ later).bind ?_
  rintro answer last ⟨hanswer, -⟩
  rw [Client.nodeExists_run hlater (c.isEntryPath_requestAt 0) (by rw [hentries, hgone])] at hanswer
  refine (succeeds_orStop hanswer).bind ?_
  rintro present _ ⟨rfl, rfl⟩
  refine ⟨_, _, rfl, rfl, rfl, rfl, rfl, fun handles hresult => ?_, fun e hresult => ?_, ?_, rfl,
    ?_⟩
  · simp only [AcceptOutcome.nodes, hresult, and_self]
  · simp only [AcceptOutcome.nodes, hresult, List.map_nil, and_self]
  · rw [hclean]
    rfl
  · exact (List.length_map ..).symm

theorem Consumed.reports {settings : SimulationSettings} {report : SimulationReport}
    (hconsumed : Consumed c.config (offered c.config settings)
      ((c.accept (offered c.config settings)).run (.plain ⟨1⟩) s).answer.result report)
    (h : Contended c.config settings.poolLabel settings.nodes settings.contend s) :
    Reports c.config settings report := by
  have hplaced : (offered c.config settings).path = some (c.config.requestAt 0) := rfl
  have hnodes : (offered c.config settings).allocatedNodes =
      Scheduler.idsFrom 1 settings.nodes := rfl
  have hstate : report.state = if settings.nodes = 0 then .failed else .fulfilled := hconsumed.state
  -- where there are nodes, they are taken one after another
  have htaken : 0 < settings.nodes →
      ((c.accept (offered c.config settings)).run (.plain ⟨1⟩) s).answer.result =
        s.takeAll ⟨1⟩ (nodePaths c.config settings.nodes) := by
    intro hsome
    have hne : (offered c.config settings).allocatedNodes ≠ [] := by
      rw [hnodes]
      intro hnil
      have hlength := congrArg List.length hnil
      rw [Scheduler.length_idsFrom, List.length_nil] at hlength
      omega
    rw [Client.accept_result h.sound.locks.onlyHeld h.consumer hplaced hne, hnodes,
      map_resolve_idsFrom]
  refine {
    requestPath := hconsumed.requestPath
    requestId := hconsumed.requestId
    requestDeleted := hconsumed.requestDeleted
    cleanupFailures := hconsumed.cleanupFailures
    released := hconsumed.released
    allocated := hconsumed.allocated.trans hnodes
    empty := fun hnone => ?_
    accepted := fun hsome hcontend => ?_
    contended := fun hsome hcontend => ?_ }
  · have hnil : (offered c.config settings).allocatedNodes = [] := by
      rw [hnodes, hnone]
      rfl
    rw [if_pos hnone] at hstate
    exact ⟨hstate, hconsumed.refused _ (Client.accept_of_no_nodes hplaced hnil)⟩
  · rw [if_neg (Nat.ne_of_gt hsome)] at hstate
    rcases h.takeAll (h.unlocked hcontend) (h.grants hcontend) with ⟨handles, hhandles, hreported⟩
    rcases hconsumed.accepted handles ((htaken hsome).trans hhandles) with ⟨haccepted, herror⟩
    exact ⟨hstate, haccepted.trans hreported, herror⟩
  · rw [if_neg (Nat.ne_of_gt hsome)] at hstate
    have hrefused := h.takeAll_contended hsome (h.held hcontend hsome)
    rw [c.nodeAt_eq] at hrefused
    exact ⟨hstate, hconsumed.refused _ ((htaken hsome).trans hrefused)⟩

/-! ## The whole cycle -/

section Traced

variable (c : Client) (session : Session Store)

theorem place_traced (settings : SimulationSettings) :
    place c session.traced settings = place c session settings := by
  unfold place
  simp only [onSession_traced]

theorem decided_traced (scheduler : Scheduler) (count : Nat) (placed : NodeRequest)
    (changed : WatchId) :
    decided scheduler session.traced count placed changed =
      decided scheduler session count placed changed := by
  unfold decided
  simp only [onSession_traced]

theorem consume_traced (r : NodeRequest) : consume c session.traced r = consume c session r := by
  unfold consume
  simp only [onSession_traced, releaseAll_traced]

end Traced

/-- With settings that can be used, a simulation runs to its end exactly when it is feasible. -/
theorem settles_steps (c : Client) (settings : SimulationSettings) :
    Settles (steps c.config settings) {} (Feasible c.config settings)
      fun report _ => Reports c.config settings report := by
  rcases c.provision_stocked settings.nodes settings.poolLabel with ⟨hanswer, hroot, hready, hstock⟩
  unfold steps
  simp only [place_traced, decided_traced, consume_traced]
  refine (succeeds_onScheduler hanswer).bind_settles ?_
  rintro _ _ ⟨rfl, rfl⟩
  refine (succeeds_openSession c.config.sessionTimeout _).bind_settles ?_
  rintro _ _ ⟨rfl, rfl⟩
  refine (succeeds_orStop c.new_config).bind_settles ?_
  rintro client _ ⟨hclient, rfl⟩
  rw [hclient]
  rcases succeeds_place hstock {} c.config.sessionTimeout with ⟨hconsumer, hplace⟩
  rw [hconsumer]
  refine hplace.bind_settles ?_
  rintro ⟨placed, changed⟩ store ⟨hplaced, ⟨older, hchanged, hwatches⟩, hwaiting⟩
  dsimp only at hplaced hchanged ⊢
  rw [hchanged]
  have hpath : placed.path = some (c.config.requestAt 0) := congrArg NodeRequest.path hplaced
  refine (settles_decided hwaiting hwatches hroot hready hpath).bind ?_
  rintro _ after ⟨rfl, record, hdecided⟩
  rcases offering_of_waiting hdecided {} c.config.sessionTimeout with
    ⟨hrival, hopen, hunlocked, hgrants, hoffering⟩
  refine (succeeds_openSession c.config.sessionTimeout after).bind ?_
  rintro _ _ ⟨rfl, rfl⟩
  rw [hrival]
  refine (succeeds_holdLast hoffering hopen hunlocked hgrants rfl settings.contend).bind ?_
  rintro _ contended hcontended
  refine (succeeds_consume hcontended.toOffering rfl).bind ?_
  rintro report last hconsumed
  exact ⟨report, _, rfl, hconsumed.reports hcontended⟩

/-- A simulation with settings that cannot be used does not get beyond making its client. -/
theorem fails_steps {config : Config} {fault : ConfigFault} (hfault : config.fault? = some fault)
    (settings : SimulationSettings) : Fails (steps config settings) {} := by
  have hnew : Client.new config = .error (.config (.invalid fault)) := by
    unfold Client.new
    split
    · next hnone =>
        rw [hfault] at hnone
        cases hnone
    · next hsome => rw [Option.some.inj (hfault.symm.trans hsome)]
  unfold steps
  cases hanswer :
    ((Scheduler.new config).provision {} settings.nodes settings.poolLabel).answer with
  | error e => exact (fails_onScheduler hanswer).bind _
  | ok ids =>
      refine (succeeds_onScheduler hanswer).bind_fails ?_
      rintro _ _ ⟨rfl, rfl⟩
      refine (succeeds_openSession config.sessionTimeout _).bind_fails ?_
      rintro _ _ ⟨rfl, rfl⟩
      exact (fails_orStop hnew).bind _

theorem run_eq_ok_of_succeeds {config : Config} {settings : SimulationSettings}
    {P : SimulationReport → Store → Prop} (h : Succeeds (steps config settings) {} P) :
    ∃ report s, run config settings = .ok report ∧ P report s := by
  rcases h with ⟨report, s, hsteps, hP⟩
  refine ⟨report, s, ?_, hP⟩
  unfold run
  rw [StateT.run'_eq, hsteps]
  rfl

theorem exists_run_eq_error_of_fails {config : Config} {settings : SimulationSettings}
    (h : Fails (steps config settings) {}) : ∃ e, run config settings = .error e := by
  rcases h with ⟨e, hsteps⟩
  refine ⟨e, ?_⟩
  unfold run
  rw [StateT.run'_eq, hsteps]
  rfl

end Simulation

/-- A simulation with usable and feasible settings comes to a report, and no other does.  What it
reports is what the settings ask for. -/
theorem simulation_reports (config : Config) (settings : SimulationSettings) :
    ((∃ report, Simulation.run config settings = .ok report) ↔
        config.fault? = none ∧ Simulation.Feasible config settings) ∧
      ∀ report, Simulation.run config settings = .ok report →
        Simulation.Reports config settings report := by
  open Simulation in
  cases hfault : config.fault? with
  | some fault =>
      rcases exists_run_eq_error_of_fails (fails_steps hfault settings) with ⟨e, hrun⟩
      rw [hrun]
      exact ⟨⟨nofun, nofun⟩, nofun⟩
  | none =>
      rcases settles_steps ⟨config, hfault⟩ settings with ⟨hsucceeds, hfails⟩
      by_cases hfeasible : Feasible config settings
      · rcases run_eq_ok_of_succeeds (hsucceeds hfeasible) with ⟨report, s, hrun, hreports⟩
        rw [hrun]
        refine ⟨⟨fun _ => ⟨rfl, hfeasible⟩, fun _ => ⟨report, rfl⟩⟩, ?_⟩
        rintro _ ⟨rfl⟩
        exact hreports
      · rcases exists_run_eq_error_of_fails (hfails hfeasible) with ⟨e, hrun⟩
        rw [hrun]
        exact ⟨⟨nofun, fun h => absurd h.2 hfeasible⟩, nofun⟩

theorem simulation_reports_by_default :
    ∃ report, Simulation.run {} {} = .ok report ∧ Simulation.Reports {} {} report := by
  rcases simulation_reports {} {} with ⟨hruns, hreports⟩
  rcases hruns.2 ⟨by decide, ⟨by decide, by decide⟩, .inr (by decide)⟩ with ⟨report, hrun⟩
  exact ⟨report, hrun, hreports report hrun⟩

end FencedPool
