import FencedPool.Proofs.Simulation.Places

/-!
# Stock — what provisioning stores

A scheduler that starts with an empty store stores all nodes that it is told to.  They have the
numbers from one on, and nothing but them and what stands above them is in the store.

This file defines:

* `Store.Sound` — what holds of the locks and the entries of every store that a run leads to;
* `Store.Stocked` — a store with so many nodes of a label and nothing else;
* `Store.Provisioned` — such a store in which nothing else has happened.

The main statement is `Client.provision_stocked`.
-/

namespace FencedPool

open FencedPool.Path

namespace Store

/-- What holds of the locks and the entries of every store that a run leads to. -/
structure Sound (s : Store) : Prop where
  locks : s.LocksSound
  entries : s.EntriesSound

theorem sound_empty : Sound {} := ⟨locksSound_empty, entriesSound_empty⟩

theorem Sound.act {s : Service} (hs : s.store.Sound) (a : ServiceAction) :
    (s.act a).store.Sound :=
  ⟨s.act_locksSound a hs.locks, s.act_entriesSound a hs.entries⟩

variable {s : Store} {path : String}

/-- A procedure on a session makes calls, so it keeps a store sound. -/
theorem Sound.run {α : Type} (hs : s.Sound) (id : SessionId) (p : Procedure α) :
    (p.run (.plain id) s).state.Sound := by
  rcases (Procedure.dialogue_plain id p s).exists_run ⟨s, {}, .halfMinute⟩ rfl with
    ⟨actions, hafter, -, -⟩
  have hstore : ((⟨s, {}, .halfMinute⟩ : Service).after actions).store.Sound :=
    Service.after_preserves (fun _ a h => h.act a) _ actions hs
  rwa [hafter] at hstore

/-! ## Persistent entries -/

/-- Where all entries are persistent, an entry can be created anywhere. -/
theorem blocked?_eq_none (h : ∀ p entry, s.entries.get? p = some entry → entry.owner = none)
    (path : String) : s.blocked? path = none := by
  refine List.find?_eq_none.2 fun above _ hephemeral => ?_
  rcases isEphemeral_iff.1 hephemeral with ⟨entry, id, hentry, howner⟩
  rw [h above entry hentry] at howner
  cases howner

theorem put_new (hs : s.Rooted) (hpath : isEntryPath path = true)
    (hfree : s.blocked? path = none) (habsent : s.entries.get? path = none) (data : Bytes) :
    s.put path data =
      (.ok (), (s.withParents (ancestors path)).write path { data := data } (.created path)) := by
  unfold put checkingPath
  rw [if_pos hpath, belowParents_eq hs, hfree]
  dsimp only
  rw [get?_withParents_of_not_mem (not_mem_ancestors path), habsent]

/-! ## Nodes -/

/-- A store that has so many nodes of a label, numbered from one, and what stands above them. -/
structure Stocked (c : Config) (label : String) (count : Nat) (s : Store) : Prop where
  nodes : ∀ k, 1 ≤ k → k ≤ count → s.entries.get? (c.nodeAt k) =
    some { data := (Scheduler.nodeRecord k label).encode }
  only : ∀ p entry, s.entries.get? p = some entry → entry.owner = none ∧
    ∃ k, 1 ≤ k ∧ k ≤ count ∧ (p = c.nodeAt k ∨ IsAbove p (c.nodeAt k))

theorem stocked_empty (c : Config) (label : String) : Stocked c label 0 {} where
  nodes k hlow hhigh := absurd (Nat.le_trans hlow hhigh) (by decide)
  only p entry h := by cases h

/-- A store in which so many nodes of a label have been stored, and nothing else has happened. -/
structure Provisioned (c : Config) (label : String) (count : Nat) (s : Store) : Prop where
  sound : s.Sound
  stocked : Stocked c label count s
  change : EntryChange {} s
  sequences : s.sequences = .empty

variable {c : Client} {label : String} {count : Nat}

/-- The next node can be stored. -/
theorem Stocked.put (h : Stocked c.config label count s) (hs : s.Rooted) :
    let outcome := s.put (c.config.nodeAt (count + 1))
      (Scheduler.nodeRecord (count + 1) label).encode
    outcome.1 = .ok () ∧ Stocked c.config label (count + 1) outcome.2 := by
  have hlevel := c.onLevel_nodeAt
  have hfree : s.blocked? (c.config.nodeAt (count + 1)) = none :=
    blocked?_eq_none (fun p entry hp => (h.only p entry hp).1) _
  have habsent : s.entries.get? (c.config.nodeAt (count + 1)) = none := by
    cases hentry : s.entries.get? (c.config.nodeAt (count + 1)) with
    | none => rfl
    | some entry =>
        rcases (h.only _ entry hentry).2 with ⟨k, -, hk, hsame | habove⟩
        · have hnumber := c.nodeAt_injective hsame
          omega
        · exact absurd habove ((hlevel _).not_isAbove (hlevel k))
  intro outcome
  have hput : outcome = _ := put_new hs (c.isEntryPath_nodeAt _) hfree habsent _
  have hget : ∀ p, outcome.2.entries.get? p =
      if p = c.config.nodeAt (count + 1) then
        some { data := (Scheduler.nodeRecord (count + 1) label).encode }
      else (s.entries.get? p).or
        (if p ∈ ancestors (c.config.nodeAt (count + 1)) then some { data := [] } else none) := by
    intro p
    rw [hput, get?_write, get?_withParents]
  refine ⟨congrArg Prod.fst hput, fun k hlow hhigh => ?_, fun p entry hp => ?_⟩
  · rw [hget]
    by_cases hlast : k = count + 1
    · rw [if_pos (congrArg c.config.nodeAt hlast), hlast]
    · rw [if_neg fun heq => hlast (c.nodeAt_injective heq), h.nodes k hlow (by omega)]
      rfl
  · rw [hget] at hp
    by_cases hnode : p = c.config.nodeAt (count + 1)
    · rw [if_pos hnode] at hp
      exact ⟨by rw [← Option.some.inj hp], count + 1, by omega, Nat.le_refl _, .inl hnode⟩
    · rw [if_neg hnode] at hp
      cases hold : s.entries.get? p with
      | some old =>
          rw [hold] at hp
          cases hp
          rcases h.only p entry hold with ⟨howner, k, hlow, hhigh, hplace⟩
          exact ⟨howner, k, hlow, by omega, hplace⟩
      | none =>
          rw [hold, Option.none_or] at hp
          split at hp
          · next habove =>
              cases hp
              exact ⟨rfl, count + 1, by omega, Nat.le_refl _, .inr (mem_ancestors_iff.1 habove).1⟩
          · cases hp

end Store

/-! ## Provisioning -/

namespace Scheduler

/-- The ids of so many nodes, numbered from a number on. -/
def idsFrom (first count : Nat) : List String := (List.range' first count).map nodeId

theorem length_idsFrom (first count : Nat) : (idsFrom first count).length = count := by
  rw [idsFrom, List.length_map, List.length_range']

theorem getLast?_idsFrom (count : Nat) :
    (idsFrom 1 count).getLast? =
      if count = 0 then none else some (nodeId count) := by
  unfold idsFrom
  rw [List.getLast?_map, List.getLast?_range']
  by_cases hnone : count = 0
  · rw [if_pos hnone, if_pos hnone]
    rfl
  · rw [if_neg hnone, if_neg hnone, Nat.add_sub_cancel_left]
    rfl

end Scheduler

namespace Client

open Scheduler Store

variable {c : Client} {label : String}

/-- Nodes that are stored after others get the next numbers. -/
theorem storeNodes_stocked (more : Nat) {count : Nat} {s : Scheduler} {store : Store}
    (hroot : s.nodeRoot = c.config.nodePath) (hnext : s.next = count + 1) (hs : store.Rooted)
    (h : Stocked c.config label count store) :
    let reply := storeNodes label more (s, store)
    reply.answer = .ok (idsFrom (count + 1) more) ∧
      Stocked c.config label (count + more) reply.state.2 := by
  induction more generalizing count s store with
  | zero => exact ⟨rfl, h⟩
  | succ more ih =>
      have hplace : join s.nodeRoot (nodeId s.next) = c.config.nodeAt (count + 1) := by
        rw [hroot, hnext]
        rfl
      have hput := h.put hs
      have hrooted := put_rooted hs (c.config.nodeAt (count + 1))
        (nodeRecord (count + 1) label).encode
      unfold storeNodes
      dsimp only
      rw [hplace, hnext]
      generalize store.put (c.config.nodeAt (count + 1)) (nodeRecord (count + 1) label).encode =
        outcome at hput hrooted
      rcases outcome with ⟨answer, after⟩
      obtain ⟨rfl, hstocked⟩ := hput
      rcases ih (s := { s with next := count + 1 + 1 }) hroot rfl hrooted hstocked with
        ⟨hanswer, hmore⟩
      dsimp only
      refine ⟨?_, ?_⟩
      · rw [hanswer]
        rfl
      · rw [← Nat.add_assoc, Nat.add_right_comm]
        exact hmore

theorem provision_sound (s : Scheduler) (count : Nat) (label : String) :
    (s.provision {} count label).state.2.Sound :=
  Sound.act (s := ⟨{}, {}, .halfMinute⟩) sound_empty (.provision s count label)

theorem provision_sequences (s : Scheduler) (count : Nat) (label : String) :
    (s.provision {} count label).state.2.sequences = .empty := by
  let P : Store → Prop := fun after => after.EntriesSound ∧ after.sequences = .empty
  have hkept : P (s.provision {} count label).state.2 := by
    refine s.provision_preserves ?_ {} count label ⟨entriesSound_empty, rfl⟩
    rintro after path data ⟨hafter, hsequences⟩
    exact ⟨put_entriesSound hafter path data,
      (put_sequences hafter.rooted path data).trans hsequences⟩
  exact hkept.2

/-- A scheduler of an empty store stores all nodes, and they are ready. -/
theorem provision_stocked (c : Client) (count : Nat) (label : String) :
    let reply := (Scheduler.new c.config).provision {} count label
    reply.answer = .ok (idsFrom 1 count) ∧
      reply.state.1.requestRoot = c.config.requestPath ∧
      (∀ other, reply.state.1.readyNodes other = if label = other then idsFrom 1 count else []) ∧
      Provisioned c.config label count reply.state.2 := by
  have hrooted : ({} : Store).Rooted := entriesSound_empty.rooted
  rcases storeNodes_stocked (c := c) count (s := Scheduler.new c.config) rfl rfl hrooted
    (stocked_empty c.config label) with ⟨hanswer, hstocked⟩
  rw [Nat.zero_add] at hstocked hanswer
  rcases provision_of_ok hanswer with ⟨hgiven, hstate⟩
  rcases storeNodes_numbered label count (Scheduler.new c.config) {} with ⟨used, hnumbered, -⟩
  rcases provision_numbered (Scheduler.new c.config) {} count label with ⟨-, -, hready⟩
  have hstore : ((Scheduler.new c.config).provision {} count label).state.2 =
      (storeNodes label count (Scheduler.new c.config, {})).state.2 := by
    simp only [provision, hanswer]
  refine ⟨hgiven, ?_, fun other => ?_, provision_sound _ count label, hstore ▸ hstocked,
    Service.provision_change {} _ count label, provision_sequences _ count label⟩
  · rw [hstate, hnumbered]
    rfl
  · rw [hready other, hgiven]
    rfl

end Client

end FencedPool
