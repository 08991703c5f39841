import FencedPool.Proofs.Client.Release
import FencedPool.Proofs.Client.Resolution
import Mathlib.Data.List.Induction

/-!
# Spellings — three ways to name one node in an allocation

A node may be named by its id, by the id below the node root, or by its path.  All three lead to one
path, and different ids to different paths, also when an id is the name of the node root or begins
with it.  So a request that names a node twice is refused: by the time of the repetition the session
itself has locked the node.

This file defines:

* `Client.spellings` — the three ways to name a node;
* `Client.IsPlaceOf` — what is known of the path of a node;
* `NodeRequest.NamesTwice` — that a request names a node twice.

The main statement is `spellings_agree`.
-/

namespace FencedPool

open FencedPool.Path

namespace Client

/-- The ways to name a node: by its id, by the id below the node root, and by its path. -/
def spellings (c : Client) (id : String) : List String :=
  [id, c.config.nodeRoot ++ "/" ++ id, c.config.nodePath ++ "/" ++ id]

/-- Whether a path is that of the node with an id, directly below the node root. -/
structure IsPlaceOf (c : Client) (id path : String) : Prop where
  spelled : path = c.config.nodePath ++ "/" ++ id
  isValid : isValid path = true
  lastSegment : lastSegment path = id
  parent : parent? path = some c.config.nodePath

end Client

/-- Whether a request names a node twice, in any two spellings, the second time behind given
entries. -/
structure NodeRequest.NamesTwice (r : NodeRequest) (c : Client) (id : String)
    (before : List String) : Prop where
  isName : IsName id.toList
  first : ∃ entry ∈ before, entry ∈ c.spellings id
  again : ∃ entry rest, r.allocatedNodes = before ++ entry :: rest ∧ entry ∈ c.spellings id

namespace Client

variable (c : Client) {id id' entry : String}

/-! ## One path -/

theorem toList_resolve_id (hid : IsName id.toList) :
    (c.resolve id).toList = c.config.nodePath.toList ++ '/' :: id.toList := by
  rw [c.resolve_of_isName hid]
  exact toList_join c.isEntryPath_nodePath hid

/-- The node root is taken off once, even when the id is its name. -/
theorem toList_resolve_rooted (hid : IsName id.toList) :
    (c.resolve (c.config.nodeRoot ++ "/" ++ id)).toList =
      c.config.nodePath.toList ++ '/' :: id.toList := by
  have hrelative : IsRelative (c.config.nodeRoot ++ "/" ++ id) := by
    have hroot := c.isName_root .node
    change IsName c.config.nodeRoot.toList at hroot
    unfold IsRelative
    rw [String.toList_append, String.toList_append]
    cases hchars : c.config.nodeRoot.toList with
    | nil => exact absurd hchars hroot.1
    | cons first rest =>
        have hfirst : first ≠ '/' := fun heq => hroot.2 (by simp [hchars, heq])
        simpa using hfirst
  have hstrip : (c.config.nodeRoot.toList ++ ['/']).isPrefixOf?
      (c.config.nodeRoot ++ "/" ++ id).toList = some id.toList := by
    apply List.isPrefixOf?_eq_some_iff_append_eq.2
    simp
  have hleft : c.remainder (c.config.nodeRoot ++ "/" ++ id) = id.toList := by
    unfold remainder
    rw [hstrip, Option.getD_some]
    exact trimStart_of_isName hid
  rw [c.toList_resolve hrelative, hleft, if_neg hid.1]

/-- A path is taken as it is. -/
theorem resolve_nodePath (id : String) :
    c.resolve (c.config.nodePath ++ "/" ++ id) = c.config.nodePath ++ "/" ++ id := by
  rcases isEntryPath_iff.1 c.isEntryPath_nodePath with ⟨list, hne, -, hspelled⟩
  have habsolute : ['/'].isPrefixOf (c.config.nodePath ++ "/" ++ id).toList = true := by
    cases list with
    | nil => exact absurd rfl hne
    | cons name more => simp [hspelled]
  unfold resolve
  rw [if_pos habsolute]

theorem resolve_of_mem_spellings (hid : IsName id.toList) (hentry : entry ∈ c.spellings id) :
    c.resolve entry = c.config.nodePath ++ "/" ++ id := by
  have hpath : (c.config.nodePath ++ "/" ++ id).toList =
      c.config.nodePath.toList ++ '/' :: id.toList := by simp
  rcases List.mem_cons.1 hentry with rfl | hentry
  · exact String.toList_inj.1 ((c.toList_resolve_id hid).trans hpath.symm)
  · rcases List.mem_pair.1 hentry with rfl | rfl
    · exact String.toList_inj.1 ((c.toList_resolve_rooted hid).trans hpath.symm)
    · exact c.resolve_nodePath id

theorem isPlaceOf_resolve (hid : IsName id.toList) (hentry : entry ∈ c.spellings id) :
    c.IsPlaceOf id (c.resolve entry) := by
  have hresolved := c.resolve_of_mem_spellings hid hentry
  have hpath : (c.resolve entry).toList = c.config.nodePath.toList ++ '/' :: id.toList := by
    rw [hresolved]
    simp
  exact {
    spelled := hresolved
    isValid := isValid_of_isEntryPath (isEntryPath_child c.isEntryPath_nodePath hid hpath)
    lastSegment := by
      rw [lastSegment_eq hid.2 hpath]
      exact String.ofList_toList
    parent := parent?_eq_some (ne_empty_of_isEntryPath c.isEntryPath_nodePath) hid.2 hpath }

end Client

/-! ## Nodes that are named again -/

/-- A list with a repetition has a first one. -/
theorem exists_first_repetition {α : Type} {l : List α} (h : ¬ l.Nodup) :
    ∃ before again rest, l = before ++ again :: rest ∧ before.Nodup ∧ again ∈ before := by
  -- by recursion from the end: the last element is dropped as long as there is a repetition
  induction l using List.reverseRecOn with
  | nil => exact absurd List.nodup_nil h
  | append_singleton front last ih =>
      by_cases hfront : front.Nodup
      · refine ⟨front, last, [], rfl, hfront, ?_⟩
        by_contra hnot
        apply h
        rw [← List.concat_eq_append]
        exact hfront.concat hnot
      · rcases ih hfront with ⟨before, again, rest, rfl, hnodup, hagain⟩
        exact ⟨before, again, rest ++ [last], by simp, hnodup, hagain⟩

namespace Store

variable {s : Store} {before : List String} {again : String}

/-- Behind different nodes that can be accepted, the one that is named again is in the way. -/
theorem firstOffence_again (id : SessionId) (rest : List String)
    (hnodes : ∀ path ∈ before, ∃ metadata, s.FreeNode path metadata) (hnodup : before.Nodup)
    (hagain : again ∈ before) :
    s.FirstOffence id (before ++ again :: rest) before.length (.lockUnavailable again id) := by
  constructor
  · refine ⟨again, by simp, ?_⟩
    rw [List.take_left]
    rcases hnodes again hagain with ⟨metadata, hpath, ⟨entry, hentry, -⟩, -⟩
    exact .locked hpath hentry (if_pos hagain)
  · intro j hj path hpath e
    rw [List.getElem?_append_left hj] at hpath
    rw [List.take_append_of_le_length hj.le]
    rcases hnodes path (List.mem_of_getElem? hpath) with ⟨metadata, hnode⟩
    apply hnode.not_offends
    intro htaken
    -- the path stands behind those that have been taken, and only once
    have hlater : path ∈ before.drop j := List.mem_of_getElem? (i := 0) (by simpa using hpath)
    exact List.disjoint_take_drop hnodup le_rfl htaken hlater

/-- When a node is named again behind nodes that can be accepted, a node is found locked by the
session itself: that one, or an earlier one that is named twice. -/
theorem takeAll_again (hs : s.OnlyHeld) (id : SessionId) (rest : List String)
    (hnodes : ∀ path ∈ before, ∃ metadata, s.FreeNode path metadata) (hagain : again ∈ before) :
    ∃ locked ∈ before, s.takeAll id (before ++ again :: rest) =
        .error (.lockUnavailable locked id) ∧ (before.Nodup → locked = again) := by
  by_cases hnodup : before.Nodup
  · have hoffence := firstOffence_again id rest hnodes hnodup hagain
    exact ⟨again, hagain, (takeAll_error_iff hs id _ _).2 ⟨_, hoffence⟩, fun _ => rfl⟩
  · rcases exists_first_repetition hnodup with ⟨front, locked, more, rfl, hfront, hlocked⟩
    have hoffence : s.FirstOffence id (front ++ locked :: (more ++ again :: rest)) front.length
        (.lockUnavailable locked id) :=
      firstOffence_again id _ (fun path hpath => hnodes path (List.mem_append_left _ hpath)) hfront
        hlocked
    refine ⟨locked, List.mem_append_left _ hlocked, ?_, fun h => absurd h hnodup⟩
    rw [List.append_assoc, List.cons_append]
    exact (takeAll_error_iff hs id _ _).2 ⟨_, hoffence⟩

end Store

open Client in
/-- All spellings of a node lead to its path, and different nodes have different paths.  So a
request that names a node twice is refused, in every store that a run leads to and on any open
session, as long as the entries before the repetition can be accepted: the session is told that it
holds the lock itself. -/
theorem spellings_agree (c : Client) :
    (∀ id, IsName id.toList → ∀ entry ∈ c.spellings id, c.IsPlaceOf id (c.resolve entry)) ∧
      (∀ id id', IsName id.toList → IsName id'.toList → ∀ entry ∈ c.spellings id,
        ∀ entry' ∈ c.spellings id', c.resolve entry = c.resolve entry' → id = id') ∧
      ∀ (s : Store) (session : SessionId) (r : NodeRequest) (path id : String)
        (before : List String), s.Reachable → s.isSessionOpen session = true →
        r.path = some path → r.NamesTwice c id before →
        (∀ entry ∈ before, ∃ metadata, s.FreeNode (c.resolve entry) metadata) →
          ∃ locked ∈ before.map c.resolve,
            ((c.accept r).run (.plain session) s).answer.result =
                .error (.lockUnavailable locked session) ∧
              ((before.map c.resolve).Nodup → locked = c.config.nodePath ++ "/" ++ id) := by
  refine ⟨fun id hid entry hentry => c.isPlaceOf_resolve hid hentry, ?_, ?_⟩
  · intro id id' hid hid' entry hentry entry' hentry' hsame
    calc id = lastSegment (c.resolve entry) := (c.isPlaceOf_resolve hid hentry).lastSegment.symm
      _ = lastSegment (c.resolve entry') := congrArg lastSegment hsame
      _ = id' := (c.isPlaceOf_resolve hid' hentry').lastSegment
  · intro s session r path id before hs hopen hplaced htwice hnodes
    rcases htwice.first with ⟨first, hfirst, hspelled⟩
    rcases htwice.again with ⟨again, rest, hentries, hspelled'⟩
    have hsame : c.resolve first = c.resolve again :=
      (c.resolve_of_mem_spellings htwice.isName hspelled).trans
        (c.resolve_of_mem_spellings htwice.isName hspelled').symm
    have hagain : c.resolve again ∈ before.map c.resolve :=
      hsame ▸ List.mem_map_of_mem hfirst
    have honly : s.OnlyHeld := hs.locksSound.onlyHeld
    have hnone : r.allocatedNodes ≠ [] := by
      rw [hentries]
      exact List.append_ne_nil_of_right_ne_nil _ (List.cons_ne_nil _ _)
    have hfree : ∀ p ∈ before.map c.resolve, ∃ metadata, s.FreeNode p metadata := by
      intro p hp
      rcases List.mem_map.1 hp with ⟨entry, hentry, rfl⟩
      exact hnodes entry hentry
    rcases Store.takeAll_again honly session (rest.map c.resolve) hfree hagain with
      ⟨locked, hlocked, htaken, hfirstTwice⟩
    refine ⟨locked, hlocked, ?_, fun hnodup => ?_⟩
    · rw [accept_result honly hopen hplaced hnone, hentries, List.map_append, List.map_cons]
      exact htaken
    · exact (hfirstTwice hnodup).trans (c.resolve_of_mem_spellings htwice.isName hspelled')

/-- The settings of a client whose node root is a digit, as an id may be. -/
def Client.rootedAtSeven : Client := ⟨{ nodeRoot := "7" }, by decide⟩

/-- A request that names the node seven by its id and by the id below the node root. -/
def NodeRequest.ofSevenTwice : NodeRequest :=
  ((NodeRequest.new "label" "consumer").withAllocatedNodes ["7", "7/7"]).placed
    "/nodepool/requests/100-0000000000" "0000000000"

/-- An id that is the name of the node root is not taken for it. -/
theorem spellings_agree_named_alike :
    let s := ((Service.fresh {} .halfMinute).after
      [.openSession, .put "/nodepool/7/7" [0x7B, 0x7D]]).store
    Client.rootedAtSeven.IsPlaceOf "7" (Client.rootedAtSeven.resolve "7/7") ∧
      ((Client.rootedAtSeven.accept .ofSevenTwice).run (.plain ⟨1⟩) s).answer.result =
        .error (.lockUnavailable "/nodepool/7/7" ⟨1⟩) := by
  intro s
  have hname : IsName "7".toList := ⟨by decide, by decide⟩
  have htwice : NodeRequest.ofSevenTwice.NamesTwice .rootedAtSeven "7" ["7"] := {
    isName := hname
    first := ⟨"7", by decide, by decide⟩
    again := ⟨"7/7", [], rfl, by decide⟩ }
  have hnodes : ∀ entry ∈ ["7"], ∃ metadata,
      s.FreeNode (Client.rootedAtSeven.resolve entry) metadata := by
    intro entry hentry
    rw [List.mem_singleton.1 hentry]
    exact ⟨{}, by decide, ⟨{ data := [0x7B, 0x7D] }, by decide, by decide⟩, by decide⟩
  rcases spellings_agree .rootedAtSeven with ⟨hplace, -, haccept⟩
  rcases haccept s ⟨1⟩ .ofSevenTwice "/nodepool/requests/100-0000000000" "7" ["7"]
    ⟨{}, .halfMinute, _, rfl⟩ (by decide) rfl htwice hnodes with ⟨locked, -, hresult, hlocked⟩
  rw [hlocked (List.nodup_singleton _)] at hresult
  exact ⟨hplace "7" hname "7/7" (by decide), hresult⟩

end FencedPool
