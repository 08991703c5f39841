import FencedPool.Proofs.Simulation.Places

/-!
# Namespaces — when requests, request locks and nodes stand apart

Each of the three roots is one segment below the base path.  Two segments below one path lead to
subtrees that have nothing in common, or are the same.  Usable settings have each root looked at
alone, so it may be the same: then two of the three namespaces are one, and the scheduler finds the
nodes that it has provisioned among the requests.

This file defines:

* `Path.IsWithin` — a path that is another or stands below it;
* `Config.KeepsApart` — that nothing stands in two of the namespaces.

The main statements are `keeps_apart_iff` and `not_alwaysApart`.
-/

namespace FencedPool

namespace Path

/-- Whether a path is the base or stands below it. -/
def IsWithin (base path : String) : Prop := path = base ∨ IsAbove base path

/-- What is within a base goes on behind it with nothing or with a slash. -/
theorem IsWithin.exists_tail {base path : String} (h : IsWithin base path) :
    ∃ tail, path.toList = base.toList ++ tail ∧ (tail = [] ∨ ∃ rest, tail = '/' :: rest) := by
  rcases h with rfl | ⟨-, rest, hrest⟩
  · exact ⟨[], by simp, .inl rfl⟩
  · exact ⟨'/' :: rest, hrest, .inr ⟨rest, rfl⟩⟩

theorem segments_head? {name tail : List Char} (hname : '/' ∉ name)
    (htail : tail = [] ∨ ∃ rest, tail = '/' :: rest) :
    (segments (name ++ tail)).head? = some name := by
  rcases htail with rfl | ⟨rest, rfl⟩
  · rw [List.append_nil, segments_of_not_mem hname]
    rfl
  · rw [segments_append_slash hname]
    rfl

/-- A path is within one child of a base at most. -/
theorem IsWithin.name_unique {base : List Char} {first second path : String} {a b : List Char}
    (ha : '/' ∉ a) (hb : '/' ∉ b) (hfirst : first.toList = base ++ '/' :: a)
    (hsecond : second.toList = base ++ '/' :: b) (h : IsWithin first path)
    (h' : IsWithin second path) : a = b := by
  rcases h.exists_tail with ⟨tail, hpath, htail⟩
  rcases h'.exists_tail with ⟨tail', hpath', htail'⟩
  have hsame : a ++ tail = b ++ tail' := by
    rw [hfirst, List.append_assoc, List.cons_append] at hpath
    rw [hsecond, List.append_assoc, List.cons_append] at hpath'
    exact (List.cons.inj (List.append_cancel_left (hpath.symm.trans hpath'))).2
  have hhead := segments_head? ha htail
  rw [hsame, segments_head? hb htail'] at hhead
  exact (Option.some.inj hhead).symm

end Path

open FencedPool.Path

namespace Config

/-- The path of a root. -/
def namespacePath (c : Config) : Root → String
  | .request => c.requestPath
  | .requestLock => c.requestLockPath
  | .node => c.nodePath

theorem namespacePath_eq_join (c : Config) (r : Root) :
    c.namespacePath r = join c.basePath (c.root r) := by
  cases r <;> rfl

theorem root_injective_iff (c : Config) : Function.Injective c.root ↔
    c.requestRoot ≠ c.requestLockRoot ∧ c.requestRoot ≠ c.nodeRoot ∧
      c.requestLockRoot ≠ c.nodeRoot := by
  constructor
  · intro h
    have hne : ∀ r r', r ≠ r' → c.root r ≠ c.root r' := fun r r' hne hroot => hne (h hroot)
    exact ⟨hne .request .requestLock nofun, hne .request .node nofun, hne .requestLock .node nofun⟩
  · rintro ⟨hlock, hnode, hlockNode⟩ r r' hroot
    cases r <;> cases r' <;> simp_all [root]

/-- Whether nothing stands in two of the namespaces: no path does, no node that a scheduler has
provisioned is ever listed with the requests, and no request that a client has placed is ever listed
with the nodes. -/
structure KeepsApart (c : Config) : Prop where
  namespaces : ∀ r r', r ≠ r' → ∀ path,
    ¬ (IsWithin (c.namespacePath r) path ∧ IsWithin (c.namespacePath r') path)
  nodes : ∀ service steps, ∀ node ∈ ((Inventory.start c service).after steps).provisioned,
    ∀ s : Store, join c.nodePath node.id ∉ s.children c.requestPath
  requests : ∀ client : Client, client.config = c → ∀ s : Store, s.Reachable →
    ∀ id poolLabel consumerLabel r path,
      ((client.request poolLabel consumerLabel).run (.plain id) s).answer = .ok r →
        r.path = some path → ∀ after : Store, path ∉ after.children c.nodePath

end Config

/-- A provisioned node has a place with a number. -/
theorem Inventory.exists_nodeAt {c : Config} {service : Service} {steps : List SchedulingStep}
    {node : ProvisionedNode} (h : node ∈ ((Inventory.start c service).after steps).provisioned) :
    ∃ number, join c.nodePath node.id = c.nodeAt number := by
  rcases ((balanced_start c service).after steps).numbered with ⟨numbers, hids, -⟩
  have hid := List.mem_map_of_mem h (f := (·.id))
  rw [hids] at hid
  rcases List.mem_map.1 hid with ⟨number, -, hnumber⟩
  exact ⟨number, congrArg (join c.nodePath) hnumber.symm⟩

namespace Client

variable (c : Client)

theorem toList_namespacePath (r : Root) :
    (c.config.namespacePath r).toList =
      c.config.basePath.toList ++ '/' :: (c.config.root r).toList := by
  rw [Config.namespacePath_eq_join]
  exact toList_join c.isEntryPath_basePath (c.isName_root r)

/-- The namespaces of two roots have a path in common exactly when the roots are the same. -/
theorem exists_isWithin_both_iff (r r' : Root) :
    (∃ path, IsWithin (c.config.namespacePath r) path ∧ IsWithin (c.config.namespacePath r') path) ↔
      c.config.root r = c.config.root r' := by
  constructor
  · rintro ⟨path, hfirst, hsecond⟩
    have hchars := IsWithin.name_unique (c.isName_root r).2 (c.isName_root r').2
      (c.toList_namespacePath r) (c.toList_namespacePath r') hfirst hsecond
    exact String.toList_inj.1 hchars
  · intro hroot
    have hpath : c.config.namespacePath r = c.config.namespacePath r' := by
      rw [Config.namespacePath_eq_join, Config.namespacePath_eq_join, hroot]
    exact ⟨c.config.namespacePath r, .inl rfl, .inl hpath⟩

/-- Requests are children of the node root exactly when it is the request root as well. -/
theorem isChild_nodePath_requestAt_iff (number : Nat) :
    Store.isChild c.config.nodePath (c.config.requestAt number) = true ↔
      c.config.requestRoot = c.config.nodeRoot := by
  have hvalid : isValid c.config.nodePath = true :=
    isValid_of_isEntryPath c.isEntryPath_nodePath
  have hroot : names c.config.nodePath = names c.config.basePath ++ [c.config.nodeRoot.toList] :=
    names_child c.isEntryPath_basePath (c.isName_root .node) (c.toList_namespacePath .node)
  rcases c.exists_names_requestAt number with ⟨name, -, hnames⟩
  rw [isChild_iff hvalid (c.isEntryPath_requestAt number), hnames, hroot]
  constructor
  · rintro ⟨last, hsame⟩
    rw [List.append_assoc] at hsame
    exact String.toList_inj.1 (List.cons.inj (List.append_cancel_left hsame)).1
  · intro hequal
    refine ⟨name, ?_⟩
    rw [hequal, List.append_assoc]
    rfl

/-- Different roots keep requests and nodes apart, and nothing else does. -/
theorem keepsApart_iff_injective : c.config.KeepsApart ↔ Function.Injective c.config.root := by
  constructor
  · intro hapart r r' hroot
    by_contra hne
    rcases (c.exists_isWithin_both_iff r r').2 hroot with ⟨path, hboth⟩
    exact hapart.namespaces r r' hne path hboth
  · intro hinjective
    have hroots : c.config.requestRoot ≠ c.config.nodeRoot :=
      (c.config.root_injective_iff.1 hinjective).2.1
    constructor
    · intro r r' hne path hboth
      exact hne (hinjective ((c.exists_isWithin_both_iff r r').1 ⟨path, hboth⟩))
    · intro service steps node hnode s hmem
      rcases Inventory.exists_nodeAt hnode with ⟨number, hplace⟩
      rw [hplace] at hmem
      exact hroots ((c.isChild_nodeAt_iff number).1 (Store.mem_children_iff.1 hmem).2)
    · intro client hconfig s hs id poolLabel consumerLabel r path hplaced hpath after hmem
      have hat := (client.request_placed hs.entriesSound.rooted hplaced).1
      rw [hpath, hconfig] at hat
      rw [Option.some.inj hat] at hmem
      exact hroots ((c.isChild_nodePath_requestAt_iff _).1 (Store.mem_children_iff.1 hmem).2)

end Client

/-- Usable settings keep requests, request locks and nodes apart exactly when the three roots are
different.  Two roots that are the same have all paths in common, and if they are those of requests
and nodes, each is listed with the other. -/
theorem keeps_apart_iff (c : Config) (usable : c.fault? = none) :
    (c.KeepsApart ↔ c.requestRoot ≠ c.requestLockRoot ∧ c.requestRoot ≠ c.nodeRoot ∧
        c.requestLockRoot ≠ c.nodeRoot) ∧
      (∀ r r', (∃ path, IsWithin (c.namespacePath r) path ∧ IsWithin (c.namespacePath r') path) ↔
        c.root r = c.root r') ∧
      (∀ number (s : Store), s.entries.contains (c.nodeAt number) = true →
        (c.nodeAt number ∈ s.children c.requestPath ↔ c.requestRoot = c.nodeRoot)) ∧
      (∀ number (s : Store), s.entries.contains (c.requestAt number) = true →
        (c.requestAt number ∈ s.children c.nodePath ↔ c.requestRoot = c.nodeRoot)) := by
  let client : Client := ⟨c, usable⟩
  refine ⟨client.keepsApart_iff_injective.trans c.root_injective_iff,
    client.exists_isWithin_both_iff, fun number s hs => ?_, fun number s hs => ?_⟩
  · rw [Store.mem_children_iff, client.isChild_nodeAt_iff number]
    exact and_iff_right hs
  · rw [Store.mem_children_iff, client.isChild_nodePath_requestAt_iff number]
    exact and_iff_right hs

/-- Roots that begin alike are apart. -/
theorem keeps_apart_beginning_alike :
    let c : Config := { requestRoot := "a", requestLockRoot := "a-b", nodeRoot := "a b" }
    c.fault? = none ∧ c.KeepsApart := by
  intro c
  have husable : c.fault? = none := by decide
  exact ⟨husable, (keeps_apart_iff c husable).1.2 (by decide)⟩

/-- Usable settings need not keep requests and nodes apart. -/
theorem not_alwaysApart : ¬ ∀ c : Config, c.fault? = none → c.KeepsApart := by
  intro h
  let c : Config := { nodeRoot := "requests" }
  have hapart := (h c (by decide)).namespaces .request .node (by decide) "/nodepool/requests"
  exact hapart ⟨.inl (by decide), .inl (by decide)⟩

end FencedPool
