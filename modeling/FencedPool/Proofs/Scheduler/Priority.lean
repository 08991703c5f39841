import FencedPool.Proofs.Client.AllOrNothing
import FencedPool.Proofs.Client.Request
import FencedPool.Proofs.Scheduler.Pass
import FencedPool.Proofs.Text.Digits

/-!
# Priority — which requests a pass serves first

A pass takes the requests in the order of their paths, and a request that comes later never finds
more ready nodes than an earlier one of its label.  In a path the priority stands before the
sequence number, as a text without leading zeros.  So requests are served by priority and number as
long as their priorities have equally many digits, but a priority of 100 is served before one of 20.

This file defines:

* `RequestKey` — a priority with a sequence number, and `Config.pathOf`, the path for it;
* `ServedInOrder` — decisions in the order of the keys, for priorities that are compared;
* `LowerFirst` — that lower priorities are always served first.

The main statements are `served_in_order` and `not_lowerFirst`.
-/

namespace FencedPool

/-- What the place of a request in the queue depends on. -/
structure RequestKey where
  priority : UInt32
  number : Nat
  deriving DecidableEq

/-- Whether a request comes before another: its priority is lower, or its number is with the same
priority. -/
def RequestKey.Before (k l : RequestKey) : Prop :=
  k.priority < l.priority ∨ k.priority = l.priority ∧ k.number < l.number

instance (k l : RequestKey) : Decidable (k.Before l) := inferInstanceAs (Decidable (_ ∨ _))

/-- The path of a request with a key, whatever the priority of the settings is. -/
def Config.pathOf (c : Config) (k : RequestKey) : String :=
  (c.withPriority k.priority).requestAt k.number

def digitCount (priority : UInt32) : Nat := (Text.decimal priority.toNat).length

/-! ## Order of paths -/

theorem toList_pathOf (c : Config) (k : RequestKey) :
    (c.pathOf k).toList = (c.requestPath.toList ++ ['/']) ++
      (Nat.toDigits 10 k.priority.toNat ++
        ('-' :: (Text.padded 10 Store.sequenceDigits k.number).toList)) := by
  simp only [Config.pathOf, Config.requestAt, Config.requestStem, Config.requestPath,
    Config.withPriority, Text.decimal, Path.sequenceSeparator, String.toList_append,
    String.toList_ofList, List.append_assoc]
  rfl

/-- Paths of requests sort by priority and number, if the priorities have equally many digits. -/
theorem pathOf_lt {c : Config} {k l : RequestKey}
    (hdigits : digitCount k.priority = digitCount l.priority)
    (hl : l.number < 10 ^ Store.sequenceDigits) (h : k.Before l) : c.pathOf k < c.pathOf l := by
  have hlength : (Nat.toDigits 10 k.priority.toNat).length =
      (Nat.toDigits 10 l.priority.toNat).length := by
    simpa [digitCount, Text.decimal] using hdigits
  rw [String.lt_iff, toList_pathOf, toList_pathOf]
  refine List.append_left_lt ?_
  rcases h with hpriority | ⟨hpriority, hnumber⟩
  · exact Text.append_lt_of_lt hlength
      (Text.toDigits_lt_of_lt hlength (UInt32.lt_iff_toNat_lt.1 hpriority)) _ _
  · rw [hpriority]
    refine List.append_left_lt (List.cons_lt_cons_iff.2 (.inr ⟨rfl, ?_⟩))
    exact Text.padded_lt_of_lt (by decide) hl hnumber

/-! ## Nodes that are left -/

namespace Scheduler

variable {perRequest : Nat} {store : Store}

theorem grant?_eq_none_of_le {ready left : List String}
    (h : grant? perRequest ready = none) (hle : left.length ≤ ready.length) :
    grant? perRequest left = none := by
  have hfew : perRequest = 0 ∨ ready.length < perRequest := by
    unfold grant? at h
    split at h
    · assumption
    · cases h
  have hfewer : perRequest = 0 ∨ left.length < perRequest := by omega
  unfold grant?
  rw [if_pos hfewer]

/-- Where there are too few nodes of a label, no request for it gets any. -/
theorem nodes?_of_too_few {paths : List String} {ready : Table String (List String)}
    {label : String} (hfew : grant? perRequest ((ready.get? label).getD []) = none) {d : Decision}
    (hd : d ∈ (plan perRequest store paths ready).decisions)
    (hlabel : d.request.poolLabel = label) : d.nodes? = none := by
  induction paths generalizing ready with
  | nil => cases hd
  | cons path rest ih =>
      rcases plan_cases path rest ready with ⟨-, hplan⟩ | ⟨e, -, hplan⟩ | ⟨r, -, -, hplan⟩
      · exact ih hfew (hplan ▸ hd)
      · rw [hplan] at hd
        cases hd
      · rw [hplan] at hd
        rcases List.mem_cons.1 hd with rfl | hlater
        · rw [← hlabel] at hfew
          exact hfew
        · exact ih (grant?_eq_none_of_le hfew (length_stock_le perRequest ready _ _)) hlater

/-- Once a request has failed, all later ones for its label fail. -/
theorem pairwise_plan (paths : List String) (ready : Table String (List String)) :
    (plan perRequest store paths ready).decisions.Pairwise fun d e =>
      d.request.poolLabel = e.request.poolLabel → d.nodes? = none → e.nodes? = none := by
  induction paths generalizing ready with
  | nil => exact .nil
  | cons path rest ih =>
      rcases plan_cases path rest ready with ⟨-, hplan⟩ | ⟨e, -, hplan⟩ | ⟨r, -, -, hplan⟩
      · rw [hplan]
        exact ih ready
      · rw [hplan]
        exact .nil
      · rw [hplan]
        refine List.pairwise_cons.2 ⟨fun e he hlabel hfailed => ?_, ih _⟩
        refine nodes?_of_too_few ?_ he hlabel.symm
        exact grant?_eq_none_of_le hfailed (length_stock_le perRequest ready _ _)

end Scheduler

/-! ## The queue -/

/-- Whether a decision is about the request with a key. -/
structure Decision.IsAbout (d : Decision) (c : Config) (k : RequestKey) : Prop where
  path : d.path = c.pathOf k
  number : k.number < 10 ^ Store.sequenceDigits

/-- Decisions about requests in the order of their keys, as far as their priorities are compared:
they are made in this order, and none fails while a later one for the same label is fulfilled. -/
structure ServedInOrder (c : Config) (compared : UInt32 → UInt32 → Prop)
    (decisions : List Decision) : Prop where
  ascending : decisions.Pairwise fun d e => ∀ k l, d.IsAbout c k → e.IsAbout c l →
    compared k.priority l.priority → k.Before l
  fair : ∀ d ∈ decisions, ∀ e ∈ decisions, ∀ k l, d.IsAbout c k → e.IsAbout c l →
    compared k.priority l.priority → k.Before l →
      d.request.poolLabel = e.request.poolLabel → d.nodes? = none → e.nodes? = none

theorem RequestKey.before_trichotomy (k l : RequestKey) : k.Before l ∨ k = l ∨ l.Before k := by
  rcases k with ⟨p, n⟩
  rcases l with ⟨q, m⟩
  simp only [RequestKey.Before, RequestKey.mk.injEq, UInt32.lt_iff_toNat_lt, ← UInt32.toNat_inj]
  omega

/-- A pass serves requests by their priorities and numbers, as far as the priorities have equally
many digits.  It records what it decides, and unless a record stops it, it decides about every
request that is new. -/
theorem served_in_order (c : Config) (s : Scheduler) (store : Store) (perRequest : Nat) :
    let plan := s.passPlan store perRequest
    let pass := s.runOnce store perRequest
    ServedInOrder c (fun p q => digitCount p = digitCount q) plan.decisions ∧
      pass = plan.carriedOut s store ∧
      (∀ d ∈ plan.decisions, store.request? d.path = some (.ok d.request) ∧
        d.request.state = .requested ∧ pass.state.2.get? d.path = some d.record.encode) ∧
      (plan.fault? = none → ∀ path ∈ store.children s.requestRoot, ∀ r,
        store.request? path = some (.ok r) → r.state = .requested →
          ∃ d ∈ plan.decisions, d.path = path) := by
  intro plan pass
  have hpass : pass = plan.carriedOut s store := Scheduler.runOnce_eq s store perRequest
  have hchildren : (plan.decisions.map (·.path)).Pairwise (· < ·) :=
    (store.pairwise_children s.requestRoot).sublist (Scheduler.paths_plan_sublist _ _)
  have hdistinct : (plan.decisions.map (·.path)).Nodup :=
    (store.nodup_children s.requestRoot).sublist (Scheduler.paths_plan_sublist _ _)
  rw [List.pairwise_map] at hchildren
  have hlt : ∀ {d e : Decision} {k l : RequestKey}, d.IsAbout c k → e.IsAbout c l →
      digitCount k.priority = digitCount l.priority → k.Before l → d.path < e.path := by
    intro d e k l hd he hdigits hbefore
    rw [hd.path, he.path]
    exact pathOf_lt hdigits he.number hbefore
  refine ⟨⟨?_, ?_⟩, hpass, ?_, ?_⟩
  · refine hchildren.imp fun {d e} hde k l hd he hdigits => ?_
    rcases k.before_trichotomy l with hbefore | hsame | hafter
    · exact hbefore
    · rw [hd.path, he.path, hsame] at hde
      exact absurd hde (String.lt_irrefl _)
    · exact absurd (hlt he hd hdigits.symm hafter) (String.lt_asymm hde)
  · intro d hmem e hmem' k l hd he hdigits hbefore
    have hde := hlt hd he hdigits hbefore
    rcases List.append_of_mem hmem with ⟨earlier, later, hlist⟩
    have hfair : plan.decisions.Pairwise fun d e =>
        d.request.poolLabel = e.request.poolLabel → d.nodes? = none → e.nodes? = none :=
      Scheduler.pairwise_plan _ _
    rw [hlist] at hmem' hchildren hfair
    -- what has the greater path has been decided about later
    rcases List.mem_append.1 hmem' with hearlier | hrest
    · have hed := (List.pairwise_append.1 hchildren).2.2 e hearlier d List.mem_cons_self
      exact absurd hed (String.lt_asymm hde)
    · rcases List.mem_cons.1 hrest with rfl | hlater
      · exact absurd hde (String.lt_irrefl _)
      · have htail := (List.pairwise_append.1 hfair).2.1
        exact (List.pairwise_cons.1 htail).1 e hlater
  · intro d hd
    rcases Scheduler.request?_of_mem_plan hd with ⟨hrequest, hstate⟩
    refine ⟨hrequest, hstate, ?_⟩
    rw [hpass]
    exact Scheduler.get?_carryOut_eq hdistinct hd hrequest
  · intro hfault path hpath r hrequest hstate
    exact Scheduler.mem_plan_of_request? hfault hpath hrequest hstate

/-! ## Priorities with different numbers of digits -/

/-- A request that a client with a priority places. -/
structure Placement where
  priority : UInt32
  poolLabel : String
  consumerLabel : String

namespace Client

def withPriority (c : Client) (priority : UInt32) : Client :=
  ⟨c.config.withPriority priority, c.usable⟩

/-- The store after requests have been placed in turn. -/
def placeAll (c : Client) (id : SessionId) (s : Store) (placements : List Placement) : Store :=
  placements.foldl (fun s p =>
    (((c.withPriority p.priority).request p.poolLabel p.consumerLabel).run (.plain id) s).state) s

end Client

/-- Whether lower priorities are always served first: whatever requests are placed by clients that
differ in their priorities only, a pass serves them by their priorities and numbers. -/
def LowerFirst : Prop :=
  ∀ (c : Client) (id : SessionId) (start : Store) (placements : List Placement) (s : Scheduler)
    (perRequest : Nat),
    start.Reachable → start.isSessionOpen id = true →
    start.children c.config.requestPath = [] →
    placements.length < 10 ^ Store.sequenceDigits → s.requestRoot = c.config.requestPath →
      ServedInOrder c.config (fun _ _ => True)
        (s.passPlan (c.placeAll id start placements) perRequest).decisions

/-- Requests with the priorities 100 and 20, and a scheduler with one node for them. -/
def hundredThenTwenty : List Placement :=
  [⟨100, "label", "consumer"⟩, ⟨20, "label", "consumer"⟩]

def Scheduler.withOneNode : Scheduler :=
  { Scheduler.new {} with ready := .insert .empty "label" ["0000000001"] }

/-- A request for a node as it is read at a path. -/
def NodeRequest.readAt (path : String) : NodeRequest :=
  { NodeRequest.new "label" "consumer" with path := some path }

/-- Of two requests for the only node the one with the priority 100 gets it, and the one with the
priority 20 fails. -/
theorem not_lowerFirst : ¬ LowerFirst := by
  intro h
  let start := ((Service.fresh {} .halfMinute).after [.openSession]).store
  have hserved := h .byDefault ⟨1⟩ start hundredThenTwenty .withOneNode 1
    ⟨{}, .halfMinute, [.openSession], rfl⟩ (by decide) (by decide) (by decide) (by decide)
  let hundred := "/nodepool/requests/100-0000000000"
  let twenty := "/nodepool/requests/20-0000000001"
  have hdecisions : (Scheduler.withOneNode.passPlan
      (Client.byDefault.placeAll ⟨1⟩ start hundredThenTwenty) 1).decisions =
        [⟨hundred, .readAt hundred, some ["0000000001"]⟩, ⟨twenty, .readAt twenty, none⟩] := by
    decide +kernel
  rw [hdecisions] at hserved
  have hnone := hserved.fair ⟨twenty, .readAt twenty, none⟩ (by simp)
    ⟨hundred, .readAt hundred, some ["0000000001"]⟩ (by simp)
    ⟨20, 1⟩ ⟨100, 0⟩ ⟨by decide, by decide⟩ ⟨by decide, by decide⟩ trivial (by decide) rfl rfl
  cases hnone

end FencedPool
