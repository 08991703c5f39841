import FencedPool.Proofs.Client.Acceptance
import FencedPool.Proofs.Scheduler.Records
import FencedPool.Proofs.Simulation.Stock
import FencedPool.Simulation

/-!
# Taking — how the nodes of a request are taken

The nodes that were provisioned are all different and can all be read, so a session that accepts a
request for them takes each, with its own number as the fence.  If another session holds the last
node, taking them stops there.

This file defines:

* `Store.Offering` — a store in which a request for so many nodes can be accepted;
* `Simulation.acceptedNode` — how an accepted node is reported.

The main statements are `Store.Offering.takeAll` and `Store.Offering.takeAll_contended`.
-/

namespace FencedPool

open FencedPool.Path

/-! ## Taking the nodes -/

namespace Store

variable {c : Client} {label : String} {count : Nat} {s : Store}

/-- The first session can accept a request for so many nodes of a label, as far as their locks allow
it. -/
structure Offering (c : Config) (label : String) (count : Nat) (s : Store) : Prop where
  sound : s.Sound
  consumer : s.isSessionOpen ⟨1⟩ = true
  request : ∃ record, s.entries.get? (c.requestAt 0) = some ⟨record, some ⟨1⟩⟩
  nodes : ∀ k, 1 ≤ k → k ≤ count → s.entries.get? (c.nodeAt k) =
    some { data := (Scheduler.nodeRecord k label).encode }

/-- The paths of so many nodes. -/
def nodePaths (c : Config) (count : Nat) : List String := (List.range' 1 count).map c.nodeAt

theorem getElem?_nodePaths {c : Config} {count index : Nat} {path : String}
    (h : (nodePaths c count)[index]? = some path) :
    index < count ∧ path = c.nodeAt (index + 1) := by
  unfold nodePaths at h
  rw [List.getElem?_map] at h
  rcases Option.map_eq_some_iff.1 h with ⟨k, hk, rfl⟩
  rcases List.getElem?_eq_some_iff.1 hk with ⟨hindex, rfl⟩
  rw [List.length_range'] at hindex
  rw [List.getElem_range']
  exact ⟨hindex, congrArg c.nodeAt (by omega)⟩

theorem mem_take_nodePaths {c : Config} {count index : Nat} {path : String}
    (h : path ∈ (nodePaths c count).take index) : ∃ k, k ≤ index ∧ path = c.nodeAt k := by
  rcases List.mem_take_iff_getElem.1 h with ⟨i, hi, rfl⟩
  exact ⟨i + 1, by omega, (getElem?_nodePaths (List.getElem?_eq_getElem _)).2⟩

theorem nodup_nodePaths (c : Client) (count : Nat) : (nodePaths c.config count).Nodup :=
  List.Nodup.map (fun _ _ => c.nodeAt_injective) List.nodup_range'

theorem map_resolve_idsFrom (c : Client) (count : Nat) :
    (Scheduler.idsFrom 1 count).map c.resolve = nodePaths c.config count := by
  unfold Scheduler.idsFrom nodePaths
  rw [List.map_map]
  refine List.map_congr_left fun k _ => ?_
  rw [Function.comp_apply, c.resolve_nodeId]

theorem lockHolder?_of_unlocked (h : s.locks = .empty) (path : String) :
    s.lockHolder? path = none := by
  unfold lockHolder?
  rw [h]
  rfl

theorem Offering.freeNode (h : Offering c.config label count s) {k : Nat} (hlow : 1 ≤ k)
    (hhigh : k ≤ count) (hfree : s.lockHolder? (c.config.nodeAt k) = none) :
    s.FreeNode (c.config.nodeAt k) (Scheduler.nodeRecord k label) := by
  refine ⟨c.isEntryPath_nodeAt k, ⟨_, h.nodes k hlow hhigh, ?_⟩, hfree⟩
  dsimp only
  exact Scheduler.decode_nodeRecord k label _

end Store

namespace Simulation

/-- A node as it is reported when it has been accepted with the fence of its own number. -/
def acceptedNode (c : Config) (number : Nat) : AcceptedNode where
  id := Scheduler.nodeId number
  path := c.nodePath ++ "/" ++ Scheduler.nodeId number
  fence := number
  interfaceIp := some (Scheduler.address number)

end Simulation

namespace Store

variable {c : Client} {label : String} {count : Nat} {s : Store}

/-- A node is reported by its lock and by its record. -/
theorem Offering.ofHandle (h : Offering c.config label count s) {k : Nat} (hlow : 1 ≤ k)
    (hhigh : k ≤ count) {handle : NodeHandle} (hlock : handle.lock = ⟨c.config.nodeAt k, ⟨1⟩, k⟩)
    (hread : s.FreeNode handle.path handle.metadata) :
    AcceptedNode.ofHandle handle = Simulation.acceptedNode c.config k := by
  have hpath : handle.path = c.config.nodeAt k := by
    unfold NodeHandle.path
    rw [hlock]
  rcases hread.entry with ⟨entry, hentry, hdecode⟩
  rw [hpath, h.nodes k hlow hhigh] at hentry
  have hdata : entry.data = (Scheduler.nodeRecord k label).encode := by
    rw [← Option.some.inj hentry]
  rw [hdata, Scheduler.decode_nodeRecord] at hdecode
  unfold AcceptedNode.ofHandle NodeHandle.nodeId
  rw [hpath, hlock, ← Except.ok.inj hdecode, c.lastSegment_nodeAt, c.nodeAt_eq]
  rfl

/-- Where nothing has been locked yet, all nodes are taken, with the fences from one on. -/
theorem Offering.takeAll (h : Offering c.config label count s) (hunlocked : s.locks = .empty)
    (hgrants : s.grants = 0) :
    ∃ handles, s.takeAll ⟨1⟩ (nodePaths c.config count) = .ok handles ∧
      handles.map AcceptedNode.ofHandle =
        (List.range' 1 count).map (Simulation.acceptedNode c.config) := by
  have honly := h.sound.locks.onlyHeld
  have hnodes : ∀ path ∈ nodePaths c.config count, ∃ metadata, s.FreeNode path metadata := by
    intro path hpath
    rcases List.mem_map.1 hpath with ⟨k, hk, rfl⟩
    have hbounds := List.mem_range'_1.1 hk
    exact ⟨_, h.freeNode hbounds.1 (by omega) (lockHolder?_of_unlocked hunlocked _)⟩
  rcases (exists_takeAll_ok_iff honly ⟨1⟩ _).2 ⟨nodup_nodePaths c count, hnodes⟩ with
    ⟨handles, hhandles⟩
  refine ⟨handles, hhandles, ?_⟩
  rcases takeAll_handles honly hhandles with ⟨hlocks, hread⟩
  have hlength : handles.length = count := by
    have hlengths := congrArg List.length hlocks
    rwa [List.length_map, List.length_mapIdx, nodePaths, List.length_map,
      List.length_range'] at hlengths
  refine List.ext_getElem (by simp [hlength]) fun i hi _ => ?_
  have hindex : i < handles.length := by simpa using hi
  have hlock : handles[i].lock = ⟨c.config.nodeAt (1 + i), ⟨1⟩, 1 + i⟩ := by
    have hsame := List.getElem_of_eq hlocks (by simpa using hi)
    simpa [nodePaths, hgrants, Nat.add_comm] using hsame
  rw [List.getElem_map, List.getElem_map, List.getElem_range', Nat.one_mul]
  exact h.ofHandle (by omega) (by omega) hlock (hread _ (List.getElem_mem hindex))

/-- Where another session holds the last node and no other, taking the nodes stops there. -/
theorem Offering.takeAll_contended (h : Offering c.config label count s) (hcount : 0 < count)
    {rival : SessionId} (hholder : ∀ path, s.lockHolder? path =
      if path = c.config.nodeAt count then some rival else none) :
    s.takeAll ⟨1⟩ (nodePaths c.config count) =
      .error (.lockUnavailable (c.config.nodeAt count) rival) := by
  refine (takeAll_error_iff h.sound.locks.onlyHeld ⟨1⟩ _ _).2
    ⟨count - 1, ⟨c.config.nodeAt count, ?_, ?_⟩, fun j hj path hpath e => ?_⟩
  · unfold nodePaths
    rw [List.getElem?_map, List.getElem?_eq_getElem (by rw [List.length_range']; omega),
      List.getElem_range']
    exact congrArg (fun k => some (c.config.nodeAt k)) (by omega)
  · have hnot : c.config.nodeAt count ∉ (nodePaths c.config count).take (count - 1) := by
      intro hmem
      rcases mem_take_nodePaths hmem with ⟨k, hk, hsame⟩
      have hnumber := c.nodeAt_injective hsame
      omega
    refine .locked (c.isEntryPath_nodeAt count) (h.nodes count hcount (Nat.le_refl _)) ?_
    unfold holderAfter
    rw [if_neg hnot, hholder, if_pos rfl]
  · rcases getElem?_nodePaths hpath with ⟨hindex, rfl⟩
    have hfree : s.lockHolder? (c.config.nodeAt (j + 1)) = none := by
      rw [hholder, if_neg]
      intro hsame
      have hnumber := c.nodeAt_injective hsame
      omega
    refine (h.freeNode (by omega) hindex hfree).not_offends fun hmem => ?_
    rcases mem_take_nodePaths hmem with ⟨k, hk, hsame⟩
    have hnumber := c.nodeAt_injective hsame
    omega

end Store

end FencedPool
