import FencedPool.Proofs.Path.Identity
import FencedPool.Proofs.Scheduler.Records
import FencedPool.Proofs.Simulation.Stock

/-!
# Addresses — what the nodes of a scheduler can be reached at

The address of a node is made of its number: the last two parts are the number divided by 256 and
the remainder.  Numbers are never used twice, and the two parts determine the number, so no two
nodes of a scheduler have one address.  But numbers have no bound, and from 65536 on the third part
is more than an address can have.

What is said about addresses here is read from the store: the metadata of a node as they stand at
its place right after it has been provisioned.

This file defines:

* `Text.IsDottedQuad` — the addresses that are well formed;
* `Scheduler.Stores` — what storing nodes does to a store, also when it stops at an error;
* `Inventory.addressesAlong` — the nodes that are provisioned in a run, with their addresses;
* `Inventory.Addressed` — what is known of them.

The main statements are `addresses_along` and `not_alwaysUsable`.
-/

namespace FencedPool

open FencedPool.Path

/-! ## Dotted quads -/

namespace Text

/-- Whether a text is made of four numbers up to 255 with dots between them. -/
def IsDottedQuad (text : String) : Prop :=
  ∃ a b c d, a ≤ 255 ∧ b ≤ 255 ∧ c ≤ 255 ∧ d ≤ 255 ∧
    text = decimal a ++ "." ++ decimal b ++ "." ++ decimal c ++ "." ++ decimal d

theorem decimal_eq_padded (n : Nat) : decimal n = padded 10 0 n := by
  simp [decimal, padded]

theorem decimal_injective {n m : Nat} (h : decimal n = decimal m) : n = m := by
  rw [decimal_eq_padded, decimal_eq_padded] at h
  exact padded_injective h

theorem dot_not_mem_decimal (n : Nat) : '.' ∉ (decimal n).toList := by
  rw [decimal_eq_padded]
  intro hdot
  have hdigit := isDigit_of_mem_padded hdot
  cases hdigit

/-- The number behind the last dot can be told from what stands before it. -/
theorem dotted_injective {first second : String} {n m : Nat}
    (h : first ++ "." ++ decimal n = second ++ "." ++ decimal m) : first = second ∧ n = m := by
  have hchars : first.toList ++ '.' :: (decimal n).toList =
      second.toList ++ '.' :: (decimal m).toList := by
    simpa using congrArg String.toList h
  rcases last_unique hchars (dot_not_mem_decimal n) (dot_not_mem_decimal m) with ⟨hfirst, hlast⟩
  exact ⟨String.toList_inj.1 hfirst, decimal_injective (String.toList_inj.1 hlast)⟩

end Text

namespace Scheduler

open Text

theorem address_eq (number : Nat) :
    address number = "10.0" ++ "." ++ decimal (number / 256) ++ "." ++ decimal (number % 256) := rfl

/-- The two parts of an address determine the number. -/
theorem address_injective {n m : Nat} (h : address n = address m) : n = m := by
  rw [address_eq, address_eq] at h
  rcases dotted_injective h with ⟨hfront, hremainder⟩
  have hquotient := (dotted_injective hfront).2
  calc n = 256 * (n / 256) + n % 256 := (Nat.div_add_mod n 256).symm
    _ = 256 * (m / 256) + m % 256 := by rw [hquotient, hremainder]
    _ = m := Nat.div_add_mod m 256

/-- The address of a node is well formed as long as its number fits into two bytes. -/
theorem isDottedQuad_address_iff (number : Nat) :
    IsDottedQuad (address number) ↔ number ≤ 65535 := by
  constructor
  · rintro ⟨a, b, c, d, -, -, hc, -, htext⟩
    rw [address_eq] at htext
    have hquotient := (dotted_injective (dotted_injective htext).1).2
    omega
  · intro hnumber
    refine ⟨10, 0, number / 256, number % 256, by decide, by decide, by omega, by omega, ?_⟩
    exact address_eq number

end Scheduler

/-! ## Places -/

namespace Scheduler

/-- Where the node with a number is stored. -/
def placeOf (s : Scheduler) (number : Nat) : String := join s.nodeRoot (nodeId number)

theorem placeOf_injective (s : Scheduler) {n m : Nat} (h : s.placeOf n = s.placeOf m) : n = m := by
  have hids : nodeId n = nodeId m := by
    calc nodeId n = lastSegment (s.placeOf n) := (lastSegment_join _ (isName_nodeId n)).symm
      _ = lastSegment (s.placeOf m) := by rw [h]
      _ = nodeId m := lastSegment_join _ (isName_nodeId m)
  exact Text.padded_injective hids

end Scheduler

/-! ## Storing nodes -/

namespace Store

variable {s : Store}

theorem Rooted.get?_eq (hs : s.Rooted) (path : String) :
    s.get? path = (s.entries.get? path).map (·.data) := by
  unfold get?
  cases hentry : s.entries.get? path with
  | none => exact ite_self _
  | some entry => rw [if_pos (hs.paths path entry hentry)]

/-- What a write leaves at a path other than its own: the same data, or an entry that was missing
before. -/
def KeepsData (s after : Store) (path : String) : Prop :=
  after.get? path = s.get? path ∨ s.get? path = none ∧ after.get? path = some []

/-- A write is refused and changes nothing, or its data are found at its path afterwards. -/
theorem put_keepsData (hs : s.Rooted) (path : String) (data : Bytes) :
    (∃ e, s.put path data = (.error e, s)) ∨
      (s.put path data).1 = .ok () ∧ (s.put path data).2.get? path = some data ∧
        ∀ other, other ≠ path → s.KeepsData (s.put path data).2 other := by
  have hafter := put_rooted hs path data
  unfold KeepsData
  rcases put_cases hs path data with ⟨e, -, hput⟩ | ⟨entry, hentry, hput⟩ | ⟨habsent, hput⟩
  · exact .inl ⟨e, hput⟩
  · refine .inr ⟨by rw [hput], ?_, fun other hother => .inl ?_⟩
    · rw [hafter.get?_eq, hput, get?_write, if_pos rfl]
      rfl
    · rw [hafter.get?_eq, hs.get?_eq, hput, get?_write, if_neg hother]
  · refine .inr ⟨by rw [hput], ?_, fun other hother => ?_⟩
    · rw [hafter.get?_eq, hput, get?_write, if_pos rfl]
      rfl
    · rw [hafter.get?_eq, hs.get?_eq, hput, get?_write, if_neg hother, get?_withParents]
      cases s.entries.get? other with
      | some entry => exact .inl rfl
      | none =>
          rw [Option.none_or]
          split
          · exact .inr ⟨rfl, rfl⟩
          · exact .inl rfl

/-- The address in the metadata of a node, as they stand in the store. -/
def addressAt? (s : Store) (path : String) : Option String :=
  (s.get? path).bind fun data => (NodeMetadata.decode path data).toOption.bind (·.interfaceIp)

end Store

namespace Scheduler

open Store

/-- What storing nodes of a label does: so many are stored under the next numbers and told, each
with its record, and all other data are kept.  The ids are given when none was refused. -/
structure Stores (s : Scheduler) (store : Store) (label : String) (stored : Nat)
    (reply : Reply (Scheduler × Store) (Except SchedulerError (List String))) : Prop where
  told : reply.journal.map (·.event) =
    (List.range' s.next stored).map fun n => .nodeProvisioned (nodeId n) label
  given : ∀ ids, reply.answer = .ok ids → ids = (List.range' s.next stored).map nodeId
  records : ∀ n ∈ List.range' s.next stored,
    reply.state.2.get? (s.placeOf n) = some (nodeRecord n label).encode
  others : ∀ path, (∀ n ∈ List.range' s.next stored, path ≠ s.placeOf n) →
    store.KeepsData reply.state.2 path

variable {s : Scheduler} {store : Store} {label : String} {stored : Nat}
  {reply : Reply (Scheduler × Store) (Except SchedulerError (List String))}

/-- No node is stored if the store stays as it is and nothing is told.  The number of a refused
record is used up. -/
theorem stores_none {after : Scheduler} {answer : Except SchedulerError (List String)}
    (hgiven : ∀ ids, answer = .ok ids → ids = []) :
    s.Stores store label 0 { answer := answer, state := (after, store) } where
  told := rfl
  given := hgiven
  records := fun _ hn => absurd hn List.not_mem_nil
  others := fun _ _ => .inl rfl

/-- A node that is stored first keeps its record while the others are stored. -/
theorem Stores.cons {after : Store}
    (hrecord : after.get? (s.placeOf s.next) = some (nodeRecord s.next label).encode)
    (hkeeps : ∀ path, path ≠ s.placeOf s.next → store.KeepsData after path)
    (h : ({ s with next := s.next + 1 } : Scheduler).Stores after label stored reply) :
    s.Stores store label (stored + 1)
      { reply with
        answer := reply.answer.map (nodeId s.next :: ·)
        journal := { event := .nodeProvisioned (nodeId s.next) label } :: reply.journal } := by
  have hnumbers : List.range' s.next (stored + 1) =
      s.next :: List.range' (s.next + 1) stored := List.range'_succ
  constructor
  · rw [hnumbers, List.map_cons, List.map_cons, h.told]
  · intro ids hanswer
    cases hmore : reply.answer with
    | error e =>
        simp only [hmore] at hanswer
        cases hanswer
    | ok more =>
        simp only [hmore] at hanswer
        cases hanswer
        rw [hnumbers, List.map_cons, h.given more hmore]
  · intro n hn
    rw [hnumbers] at hn
    rcases List.mem_cons.1 hn with rfl | hn
    · -- its place is not that of a later node, and it is not empty
      have hother : ∀ m ∈ List.range' (s.next + 1) stored,
          s.placeOf s.next ≠ s.placeOf m := by
        intro m hm hsame
        have hle := (List.mem_range'_1.1 hm).1
        rw [← s.placeOf_injective hsame] at hle
        exact Nat.not_succ_le_self _ hle
      rcases h.others _ hother with hsame | ⟨habsent, -⟩
      · exact hsame.trans hrecord
      · rw [hrecord] at habsent
        cases habsent
    · exact h.records n hn
  · intro path hpath
    rw [hnumbers] at hpath
    rcases List.forall_mem_cons.1 hpath with ⟨hne, hlater⟩
    rcases hkeeps path hne with hsame | ⟨habsent, hnew⟩
    · rcases h.others path hlater with hsame' | ⟨habsent', hnew'⟩
      · exact .inl (hsame'.trans hsame)
      · exact .inr ⟨hsame.symm.trans habsent', hnew'⟩
    · rcases h.others path hlater with hsame' | ⟨habsent', -⟩
      · exact .inr ⟨habsent, hsame'.trans hnew⟩
      · rw [hnew] at habsent'
        cases habsent'

theorem exists_stores (label : String) (count : Nat) (s : Scheduler) (hs : store.Rooted) :
    ∃ stored, s.Stores store label stored (storeNodes label count (s, store)) := by
  induction count generalizing s store with
  | zero => exact ⟨0, stores_none fun _ hids => (Except.ok.inj hids).symm⟩
  | succ count ih =>
      have hput := put_keepsData hs (join s.nodeRoot (nodeId s.next))
        (nodeRecord s.next label).encode
      have hrooted := put_rooted hs (join s.nodeRoot (nodeId s.next))
        (nodeRecord s.next label).encode
      unfold storeNodes
      dsimp only
      generalize store.put (join s.nodeRoot (nodeId s.next)) (nodeRecord s.next label).encode =
        outcome at hput hrooted ⊢
      rcases outcome with ⟨answer, after⟩
      rcases hput with ⟨e, hrefused⟩ | ⟨hstored, hrecord, hkeeps⟩
      · cases hrefused
        refine ⟨0, stores_none fun ids hids => ?_⟩
        cases hids
      · obtain rfl : answer = .ok () := hstored
        rcases ih { s with next := s.next + 1 } hrooted with ⟨stored, hmore⟩
        exact ⟨stored + 1, hmore.cons hrecord hkeeps⟩

/-- Provisioning stores nodes and does no more to the store. -/
theorem exists_stores_provision (s : Scheduler) (hs : store.Rooted) (count : Nat)
    (label : String) : ∃ stored, s.Stores store label stored (s.provision store count label) := by
  rcases exists_stores label count s hs with ⟨stored, h⟩
  refine ⟨stored, ?_⟩
  unfold provision
  dsimp only
  split
  · exact h
  · next ids hids => exact ⟨h.told, h.given, h.records, h.others⟩

/-- The address that stands at the place of a node that has been stored is that of its number. -/
theorem Stores.addressAt? (h : s.Stores store label stored reply) {n : Nat}
    (hn : n ∈ List.range' s.next stored) :
    reply.state.2.addressAt? (s.placeOf n) = some (address n) := by
  unfold Store.addressAt?
  rw [h.records n hn, Option.bind_some, decode_nodeRecord]
  rfl

end Scheduler

/-! ## Runs -/

namespace Inventory

open Scheduler

/-- The nodes that a step provisions, each with the address that stands at its place then. -/
def addressesBy (i : Inventory) (step : SchedulingStep) : List (ProvisionedNode × Option String) :=
  ((i.step step).provisioned.drop i.provisioned.length).map fun node =>
    (node, (i.step step).service.store.addressAt? (join i.scheduler.nodeRoot node.id))

/-- The nodes that are provisioned in a run, each with the address that stood at its place then. -/
def addressesAlong : Inventory → List SchedulingStep → List (ProvisionedNode × Option String)
  | _, [] => []
  | i, step :: rest => i.addressesBy step ++ (i.step step).addressesAlong rest

/-- Whether nodes with addresses are those that have been provisioned, have different addresses,
and have those of their numbers, which are well formed up to a bound only. -/
structure Addressed (i : Inventory) (given : List (ProvisionedNode × Option String)) : Prop where
  nodes : given.map Prod.fst = i.provisioned
  distinct : (given.map Prod.snd).Nodup
  numbered : ∀ p ∈ given, ∃ number text, p.1.id = nodeId number ∧ p.2 = some text ∧
    text = address number ∧ (Text.IsDottedQuad text ↔ number ≤ 65535)

variable {i : Inventory}

theorem step_entriesSound (hs : i.service.store.EntriesSound) (step : SchedulingStep) :
    (i.step step).service.store.EntriesSound := by
  cases step with
  | provision count label =>
      exact i.service.act_entriesSound (.provision i.scheduler count label) hs
  | pass perRequest => exact i.service.act_entriesSound (.runOnce i.scheduler perRequest) hs
  | act a => exact i.service.act_entriesSound a hs

theorem after_entriesSound (hs : i.service.store.EntriesSound) (steps : List SchedulingStep) :
    (i.after steps).service.store.EntriesSound := by
  induction steps generalizing i with
  | nil => exact hs
  | cons step rest ih => exact ih (step_entriesSound hs step)

theorem nodes_addressesBy (i : Inventory) (step : SchedulingStep) :
    i.provisioned ++ (i.addressesBy step).map Prod.fst = (i.step step).provisioned := by
  have hfirst : i.provisioned <+: (i.step step).provisioned := by
    cases step with
    | provision count label => exact List.prefix_append _ _
    | pass perRequest => exact List.prefix_rfl
    | act a => exact List.prefix_rfl
  rcases hfirst with ⟨more, hmore⟩
  unfold addressesBy
  rw [← hmore, List.drop_left, List.map_map]
  exact congrArg (i.provisioned ++ ·) (List.map_id more)

theorem nodes_addressesAlong (i : Inventory) (steps : List SchedulingStep) :
    i.provisioned ++ (i.addressesAlong steps).map Prod.fst = (i.after steps).provisioned := by
  induction steps generalizing i with
  | nil => exact List.append_nil _
  | cons step rest ih =>
      unfold addressesAlong
      rw [List.map_append, ← List.append_assoc, nodes_addressesBy]
      exact ih (i.step step)

/-- A node that a step provisions has the address of its number. -/
theorem numbered_of_mem_addressesBy (hs : i.service.store.Rooted) {step : SchedulingStep}
    {p : ProvisionedNode × Option String} (hp : p ∈ i.addressesBy step) :
    ∃ number, p.1.id = nodeId number ∧ p.2 = some (address number) := by
  unfold addressesBy at hp
  rcases List.mem_map.1 hp with ⟨node, hnode, rfl⟩
  cases step with
  | provision count label =>
      rcases i.scheduler.exists_stores_provision hs count label with ⟨stored, hstores⟩
      change node ∈ (i.provisioned ++ _).drop i.provisioned.length at hnode
      rw [List.drop_left] at hnode
      rcases List.mem_map.1 hnode with ⟨id, hid, rfl⟩
      cases hanswer : (i.scheduler.provision i.service.store count label).answer with
      | error e =>
          rw [hanswer] at hid
          cases hid
      | ok ids =>
          rw [hanswer, hstores.given ids hanswer] at hid
          rcases List.mem_map.1 hid with ⟨number, hnumber, rfl⟩
          have hstore : (i.step (.provision count label)).service.store =
              (i.scheduler.provision i.service.store count label).state.2 := rfl
          refine ⟨number, rfl, ?_⟩
          dsimp only
          rw [hstore]
          exact hstores.addressAt? hnumber
  | pass perRequest =>
      change node ∈ i.provisioned.drop i.provisioned.length at hnode
      rw [List.drop_length] at hnode
      cases hnode
  | act a =>
      change node ∈ i.provisioned.drop i.provisioned.length at hnode
      rw [List.drop_length] at hnode
      cases hnode

theorem numbered_of_mem_addressesAlong (hs : i.service.store.EntriesSound)
    {steps : List SchedulingStep} {p : ProvisionedNode × Option String}
    (hp : p ∈ i.addressesAlong steps) :
    ∃ number, p.1.id = nodeId number ∧ p.2 = some (address number) := by
  induction steps generalizing i with
  | nil => cases hp
  | cons step rest ih =>
      rcases List.mem_append.1 hp with hp | hp
      · exact numbered_of_mem_addressesBy hs.rooted hp
      · exact ih (step_entriesSound hs step) hp

/-- Nodes with different ids have different addresses. -/
theorem addressed_along (c : Config) (clock : Clock) (timeout : Duration)
    (steps : List SchedulingStep) :
    let i := start c (.fresh clock timeout)
    (i.after steps).Addressed (i.addressesAlong steps) := by
  intro i
  have hs : i.service.store.EntriesSound := Store.entriesSound_empty
  have hnodes : (i.addressesAlong steps).map Prod.fst = (i.after steps).provisioned :=
    i.nodes_addressesAlong steps
  refine ⟨hnodes, ?_, fun p hp => ?_⟩
  · have hids : ((i.addressesAlong steps).map (·.1.id)).Nodup := by
      have hnodup := ((balanced_start c (.fresh clock timeout)).after steps).nodup_ids
      rw [← hnodes, List.map_map] at hnodup
      exact hnodup
    rw [List.Nodup, List.pairwise_map] at hids ⊢
    refine hids.imp_of_mem fun {p q} hp hq hne hsame => ?_
    rcases numbered_of_mem_addressesAlong hs hp with ⟨n, hid, haddress⟩
    rcases numbered_of_mem_addressesAlong hs hq with ⟨m, hid', haddress'⟩
    rw [haddress, haddress'] at hsame
    have hnumber : n = m := address_injective (Option.some.inj hsame)
    apply hne
    rw [hid, hid', hnumber]
  · rcases numbered_of_mem_addressesAlong hs hp with ⟨number, hid, haddress⟩
    exact ⟨number, address number, hid, haddress, rfl, isDottedQuad_address_iff number⟩

end Inventory

open Scheduler in
/-- In every run of a scheduler, whatever else is done to the service, all nodes that are
provisioned have different addresses in the store, and an address is well formed exactly for the
numbers up to 65535.  The next call to provision, however it ends, writes such addresses under the
next numbers and nothing else. -/
theorem addresses_along (c : Config) (clock : Clock) (timeout : Duration)
    (steps : List SchedulingStep) :
    let start := Inventory.start c (.fresh clock timeout)
    let i := start.after steps
    i.Addressed (start.addressesAlong steps) ∧
      ∀ count label, ∃ stored,
        let reply := i.scheduler.provision i.service.store count label
        i.scheduler.Stores i.service.store label stored reply ∧
          ∀ n ∈ List.range' i.scheduler.next stored, ∃ text,
            reply.state.2.addressAt? (i.scheduler.placeOf n) = some text ∧
              (Text.IsDottedQuad text ↔ n ≤ 65535) := by
  intro start i
  have hs : i.service.store.EntriesSound :=
    Inventory.after_entriesSound Store.entriesSound_empty steps
  refine ⟨Inventory.addressed_along c clock timeout steps, fun count label => ?_⟩
  rcases i.scheduler.exists_stores_provision hs.rooted count label with ⟨stored, hstores⟩
  refine ⟨stored, hstores, fun n hn => ?_⟩
  exact ⟨address n, hstores.addressAt? hn, isDottedQuad_address_iff n⟩

/-! ## Many nodes -/

/-- Whether all nodes that a scheduler provisions have different addresses, all of them well
formed. -/
def AlwaysUsable : Prop :=
  ∀ (c : Config) (clock : Clock) (timeout : Duration) (steps : List SchedulingStep),
    let given := (Inventory.start c (.fresh clock timeout)).addressesAlong steps
    (∀ p ∈ given, ∃ text, p.2 = some text ∧ Text.IsDottedQuad text) ∧ (given.map Prod.snd).Nodup

/-- The last of the nodes that are provisioned in an empty store has the address of their count. -/
theorem Inventory.exists_last_address (c : Client) {count : Nat} (hcount : 1 ≤ count)
    (label : String) :
    ∃ p ∈ (start c.config (.fresh {} .halfMinute)).addressesAlong [.provision count label],
      p.2 = some (Scheduler.address count) := by
  let i := start c.config (.fresh {} .halfMinute)
  have hanswer : (i.scheduler.provision i.service.store count label).answer =
      .ok (Scheduler.idsFrom 1 count) := (c.provision_stocked count label).1
  have hlast : ⟨label, Scheduler.nodeId count⟩ ∈ (i.step (.provision count label)).provisioned := by
    apply List.mem_append_right
    rw [hanswer]
    refine List.mem_map_of_mem (List.mem_map_of_mem ?_)
    exact List.mem_range'_1.2 ⟨hcount, by omega⟩
  rcases List.mem_map.1 ((i.nodes_addressesAlong [.provision count label]).symm ▸ hlast) with
    ⟨p, hp, hnode⟩
  rcases numbered_of_mem_addressesAlong Store.entriesSound_empty hp with ⟨number, hid, haddress⟩
  rw [hnode] at hid
  have hnumber : count = number := Text.padded_injective hid
  rw [← hnumber] at haddress
  exact ⟨p, hp, haddress⟩

/-- The address of the node with the number 65536 has a part that is too large. -/
theorem not_alwaysUsable : ¬ AlwaysUsable := by
  intro h
  let c : Client := ⟨{}, by decide⟩
  -- nothing is evaluated for so many nodes
  have hmany : ∀ count, ¬ 65535 < count := by
    intro count hcount
    rcases Inventory.exists_last_address c (by omega : 1 ≤ count) "label" with ⟨p, hp, haddress⟩
    rcases (h c.config {} .halfMinute [.provision count "label"]).1 p hp with ⟨text, htext, hquad⟩
    have hsame : Scheduler.address count = text := Option.some.inj (haddress.symm.trans htext)
    rw [← hsame, Scheduler.isDottedQuad_address_iff] at hquad
    exact absurd hcount (Nat.not_lt.2 hquad)
  exact hmany 65536 (by decide)

end FencedPool
