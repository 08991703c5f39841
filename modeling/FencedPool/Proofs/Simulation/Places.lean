import FencedPool.Proofs.Client.Identity
import FencedPool.Proofs.Path.Joining
import FencedPool.Proofs.Scheduler.Conservation

/-!
# Places — where nodes and requests stand below usable settings

A client has settings that can be used, so its namespace is the path of an entry and each root is
one segment below it.  Nodes and requests stand directly below their roots, hence on one level of
the tree: none of them is above another.  A node is found below the request root exactly when the
two roots are the same.

This file defines `Config.nodeAt`, the path of a node with a number.  The main statements are
`Client.OnLevel.not_isAbove` and `Client.isChild_nodeAt_iff`.
-/

namespace FencedPool

open FencedPool.Path

/-- The path of the node with a number. -/
def Config.nodeAt (c : Config) (number : Nat) : String :=
  join c.nodePath (Scheduler.nodeId number)

namespace Scheduler

theorem isName_nodeId (number : Nat) : IsName (nodeId number).toList := by
  refine ⟨Text.padded_ne_nil 10 idDigits number, fun hslash => ?_⟩
  have hdigit := Text.isDigit_of_mem_padded hslash
  cases hdigit

end Scheduler

namespace Client

variable (c : Client)

theorem new_config : new c.config = .ok c := by
  unfold new
  split
  · rfl
  · next fault hfault =>
      rw [c.usable] at hfault
      cases hfault

theorem isEntryPath_basePath : Store.isEntryPath c.config.basePath = true := by
  have husable := c.usable
  unfold Config.fault? at husable
  split at husable
  · cases husable
  · split at husable
    · cases husable
    · next hbase =>
        rw [not_or, not_not] at hbase
        simpa [Store.isEntryPath, and_comm] using hbase

theorem isName_root (r : Root) : IsName (c.config.root r).toList := by
  have hfault : c.config.rootFault? r = none := by
    have husable := c.usable
    unfold Config.fault? at husable
    split at husable
    · cases husable
    · split at husable
      · cases husable
      · split at husable
        · cases husable
        · next hroots =>
            refine List.findSome?_eq_none_iff.1 hroots r ?_
            cases r <;> simp
  have hsegment : Config.isSegment (c.config.root r) = true := by
    by_contra hnot
    unfold Config.rootFault? at hfault
    rw [if_neg hnot] at hfault
    cases hfault
  simpa [Config.isSegment, IsName] using hsegment

/-! ## Nodes -/

theorem isEntryPath_nodePath : Store.isEntryPath c.config.nodePath = true :=
  isEntryPath_child c.isEntryPath_basePath (c.isName_root .node)
    (toList_join c.isEntryPath_basePath (c.isName_root .node))

theorem toList_nodeAt (number : Nat) :
    (c.config.nodeAt number).toList =
      c.config.nodePath.toList ++ '/' :: (Scheduler.nodeId number).toList :=
  toList_join c.isEntryPath_nodePath (Scheduler.isName_nodeId number)

theorem nodeAt_eq (number : Nat) :
    c.config.nodeAt number = c.config.nodePath ++ "/" ++ Scheduler.nodeId number := by
  rw [← String.toList_inj, toList_nodeAt]
  simp

theorem isEntryPath_nodeAt (number : Nat) : Store.isEntryPath (c.config.nodeAt number) = true :=
  isEntryPath_child c.isEntryPath_nodePath (Scheduler.isName_nodeId number) (c.toList_nodeAt number)

theorem names_nodeAt (number : Nat) :
    names (c.config.nodeAt number) = names c.config.basePath ++
      [c.config.nodeRoot.toList, (Scheduler.nodeId number).toList] := by
  have hroot : names c.config.nodePath = names c.config.basePath ++ [c.config.nodeRoot.toList] :=
    names_child c.isEntryPath_basePath (c.isName_root .node)
      (toList_join c.isEntryPath_basePath (c.isName_root .node))
  rw [names_child c.isEntryPath_nodePath (Scheduler.isName_nodeId number) (c.toList_nodeAt number),
    hroot]
  exact List.append_assoc ..

theorem nodeAt_injective {n m : Nat} (h : c.config.nodeAt n = c.config.nodeAt m) : n = m := by
  have hchars := congrArg String.toList h
  rw [toList_nodeAt, toList_nodeAt] at hchars
  have hids := (List.cons.inj (List.append_cancel_left hchars)).2
  exact Text.padded_injective (String.toList_inj.1 hids)

theorem lastSegment_nodeAt (number : Nat) :
    lastSegment (c.config.nodeAt number) = Scheduler.nodeId number := by
  rw [lastSegment_eq (Scheduler.isName_nodeId number).2 (c.toList_nodeAt number)]
  exact String.ofList_toList

/-- An id, which has no slash, is taken as it is. -/
theorem resolve_of_isName {id : String} (hid : IsName id.toList) :
    c.resolve id = join c.config.nodePath id := by
  have habsolute : ¬ ['/'].isPrefixOf id.toList = true := by
    rw [List.isPrefixOf_iff_prefix]
    exact fun hfront => hid.2 (hfront.subset (List.mem_singleton_self _))
  have hrooted : (c.config.nodeRoot.toList ++ ['/']).isPrefixOf? id.toList = none := by
    cases h : (c.config.nodeRoot.toList ++ ['/']).isPrefixOf? id.toList with
    | none => rfl
    | some rest =>
        have hchars := List.append_eq_of_isPrefixOf?_eq_some h
        exact absurd (by simp [← hchars]) hid.2
  unfold resolve
  rw [if_neg habsolute]
  dsimp only
  rw [hrooted, Option.getD_none, String.ofList_toList]

/-- The id of a node stands for its path. -/
theorem resolve_nodeId (number : Nat) :
    c.resolve (Scheduler.nodeId number) = c.config.nodeAt number :=
  c.resolve_of_isName (Scheduler.isName_nodeId number)

/-! ## Requests -/

theorem isEntryPath_requestPath : Store.isEntryPath c.config.requestPath = true :=
  isEntryPath_child c.isEntryPath_basePath (c.isName_root .request)
    (toList_join c.isEntryPath_basePath (c.isName_root .request))

theorem names_requestPath :
    names c.config.requestPath = names c.config.basePath ++ [c.config.requestRoot.toList] :=
  names_child c.isEntryPath_basePath (c.isName_root .request)
    (toList_join c.isEntryPath_basePath (c.isName_root .request))

/-- The name of a request ends in a separator before its number. -/
theorem exists_requestStem :
    ∃ name, '/' ∉ name ∧ sequenceSeparator ∈ name ∧
      c.config.requestStem.toList = c.config.requestPath.toList ++ '/' :: name := by
  refine ⟨Nat.toDigits 10 c.config.priority.toNat ++ [sequenceSeparator], ?_, by simp, ?_⟩
  · intro hmem
    rcases List.mem_append.1 hmem with hdigit | hseparator
    · have hisDigit := Nat.isDigit_of_mem_toDigits (by decide) (by decide) hdigit
      cases hisDigit
    · cases List.mem_singleton.1 hseparator
  · simp [Config.requestStem, Text.decimal, Char.toString]

theorem parent?_requestStem : parent? c.config.requestStem = some c.config.requestPath := by
  rcases c.exists_requestStem with ⟨name, hslash, -, hstem⟩
  exact parent?_eq_some (ne_empty_of_isEntryPath c.isEntryPath_requestPath) hslash hstem

theorem exists_requestAt (number : Nat) :
    ∃ name, IsName name ∧ sequenceSeparator ∈ name ∧
      (c.config.requestAt number).toList = c.config.requestPath.toList ++ '/' :: name := by
  rcases c.exists_requestStem with ⟨name, hslash, hseparator, hstem⟩
  refine ⟨name ++ (Text.padded 10 Store.sequenceDigits number).toList, ⟨?_, ?_⟩, ?_, ?_⟩
  · intro hnil
    exact Text.padded_ne_nil _ _ _ (List.append_eq_nil_iff.1 hnil).2
  · intro hmem
    rcases List.mem_append.1 hmem with hmem | hmem
    · exact hslash hmem
    · have hdigit := Text.isDigit_of_mem_padded hmem
      cases hdigit
  · exact List.mem_append_left _ hseparator
  · simp [Config.requestAt, hstem]

theorem isEntryPath_requestAt (number : Nat) :
    Store.isEntryPath (c.config.requestAt number) = true := by
  rcases c.exists_requestAt number with ⟨name, hname, -, hpath⟩
  exact isEntryPath_child c.isEntryPath_requestPath hname hpath

theorem exists_names_requestAt (number : Nat) :
    ∃ name, sequenceSeparator ∈ name ∧ names (c.config.requestAt number) =
      names c.config.basePath ++ [c.config.requestRoot.toList, name] := by
  rcases c.exists_requestAt number with ⟨name, hname, hseparator, hpath⟩
  refine ⟨name, hseparator, ?_⟩
  rw [names_child c.isEntryPath_requestPath hname hpath, names_requestPath]
  exact List.append_assoc ..

/-! ## One level -/

/-- A request is no node. -/
theorem requestAt_ne_nodeAt (number n : Nat) :
    c.config.requestAt number ≠ c.config.nodeAt n := by
  intro heq
  rcases c.exists_names_requestAt number with ⟨name, hseparator, hnames⟩
  have hsame := hnames.symm.trans ((congrArg names heq).trans (c.names_nodeAt n))
  have hname : [c.config.requestRoot.toList, name] =
      [c.config.nodeRoot.toList, (Scheduler.nodeId n).toList] := List.append_cancel_left hsame
  have hlast : name = (Scheduler.nodeId n).toList := by simpa using (List.cons.inj hname).2
  -- a number has no separator in it
  rw [hlast] at hseparator
  have hdigit := Text.isDigit_of_mem_padded hseparator
  cases hdigit

/-- Whether a path stands two levels below the namespace. -/
def OnLevel (path : String) : Prop :=
  Store.isEntryPath path = true ∧ (names path).length = (names c.config.basePath).length + 2

theorem onLevel_nodeAt (number : Nat) : c.OnLevel (c.config.nodeAt number) := by
  refine ⟨c.isEntryPath_nodeAt number, ?_⟩
  rw [names_nodeAt]
  exact List.length_append

theorem onLevel_requestAt (number : Nat) : c.OnLevel (c.config.requestAt number) := by
  refine ⟨c.isEntryPath_requestAt number, ?_⟩
  rcases c.exists_names_requestAt number with ⟨name, -, hnames⟩
  rw [hnames]
  exact List.length_append

variable {c} {above path : String}

/-- On one level no path is above another. -/
theorem OnLevel.not_isAbove (habove : c.OnLevel above) (hpath : c.OnLevel path) :
    ¬ IsAbove above path := by
  intro h
  rcases (isAbove_iff_names hpath.1).1 h with ⟨-, hfront, hne⟩
  exact hne (hfront.eq_of_length (habove.2.trans hpath.2.symm))

/-- What stands above a path of the level is no child of the request root. -/
theorem OnLevel.not_isChild_above (hpath : c.OnLevel path) (h : IsAbove above path) :
    Store.isChild c.config.requestPath above = false := by
  rcases (isAbove_iff_names hpath.1).1 h with ⟨habove, hfront, hne⟩
  by_contra hnot
  have hvalid : isValid c.config.requestPath = true :=
    isValid_of_isEntryPath c.isEntryPath_requestPath
  rcases (isChild_iff hvalid habove).1 (Bool.not_eq_false _ ▸ hnot) with ⟨name, hnames⟩
  have hlength := congrArg List.length hnames
  rw [names_requestPath, List.length_append, List.length_append] at hlength
  exact hne (hfront.eq_of_length (hlength.trans hpath.2.symm))

theorem isChild_requestAt (c : Client) (number : Nat) :
    Store.isChild c.config.requestPath (c.config.requestAt number) = true := by
  have hvalid : isValid c.config.requestPath = true :=
    isValid_of_isEntryPath c.isEntryPath_requestPath
  rcases c.exists_names_requestAt number with ⟨name, -, hnames⟩
  refine (isChild_iff hvalid (c.isEntryPath_requestAt number)).2 ⟨name, ?_⟩
  rw [hnames, names_requestPath, List.append_assoc]
  rfl

/-- Nodes are children of the request root exactly when it is the node root as well. -/
theorem isChild_nodeAt_iff (c : Client) (number : Nat) :
    Store.isChild c.config.requestPath (c.config.nodeAt number) = true ↔
      c.config.requestRoot = c.config.nodeRoot := by
  have hvalid : isValid c.config.requestPath = true :=
    isValid_of_isEntryPath c.isEntryPath_requestPath
  rw [isChild_iff hvalid (c.isEntryPath_nodeAt number), names_nodeAt, names_requestPath]
  constructor
  · rintro ⟨name, hnames⟩
    rw [List.append_assoc] at hnames
    exact String.toList_inj.1 (List.cons.inj (List.append_cancel_left hnames)).1.symm
  · intro hroot
    refine ⟨(Scheduler.nodeId number).toList, ?_⟩
    rw [hroot, List.append_assoc]
    rfl

end Client

end FencedPool
