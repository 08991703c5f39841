import FencedPool.Proofs.Client.Protocol
import FencedPool.Proofs.Simulation.Places
import Mathlib.Data.List.TakeWhile

/-!
# Resolution — what the relative entries of an allocation name

An entry of an allocation that does not begin with a slash is the id of a node, perhaps with the
node root in front.  The client takes the root off, and slashes behind it, and puts the rest below
the node root.  As long as anything is left, the path that comes out is below the node root or
malformed.  If the entry is the root with nothing but slashes behind it, nothing is left, and the
entry names the node root itself.

This file defines:

* `Path.IsStrictlyBelow` — a path that goes on behind a base with one name or more;
* `Client.NamesBelow` — that an entry names something strictly below the node root, if anything;
* `Client.NamesRoot` — the node root with nothing but slashes behind it;
* `Exchange.askedPath?` — the path whose lock a call asks for.

The main statements are `names_below_iff` and `not_alwaysBelow`.
-/

namespace FencedPool

open FencedPool.Path

namespace Path

variable {base path : String}

/-- Whether a path goes on behind a base with one name or more. -/
def IsStrictlyBelow (base path : String) : Prop :=
  ∃ list, list ≠ [] ∧ (∀ name ∈ list, IsName name) ∧ path.toList = base.toList ++ spell list

theorem IsStrictlyBelow.ne (h : IsStrictlyBelow base path) : path ≠ base := by
  rintro rfl
  rcases h with ⟨list, hne, -, hpath⟩
  have hspell : spell list = [] := List.self_eq_append_right.1 hpath
  cases list with
  | nil => exact hne rfl
  | cons name more => cases hspell

/-- A well-formed path that goes on behind another with a slash does so with names. -/
theorem isStrictlyBelow_of_append {rest : List Char} (hpath : Store.isEntryPath path = true)
    (hrest : path.toList = base.toList ++ '/' :: rest) : IsStrictlyBelow base path := by
  have hnames := fun name (hname : name ∈ names path) => isName_of_mem_names hpath hname
  have hspell : spell (names path) = base.toList ++ '/' :: rest := (spell_names hpath).trans hrest
  rcases exists_names_behind hnames hspell with ⟨back, hne, hback, htail⟩
  exact ⟨back, hne, hback, by rw [hrest, htail]⟩

end Path

/-! ## One entry -/

namespace Client

variable (c : Client) {entry : String}

/-- Whether an entry does not begin with a slash. -/
def IsRelative (entry : String) : Prop := entry.toList.head? ≠ some '/'

instance (entry : String) : Decidable (IsRelative entry) := inferInstanceAs (Decidable (_ ≠ _))

/-- Whether an entry is the node root with nothing but slashes behind it. -/
def NamesRoot (entry : String) : Prop :=
  ∃ more, entry.toList = c.config.nodeRoot.toList ++ '/' :: List.replicate more '/'

/-- Whether an entry names something strictly below the node root, if what it resolves to is the
path of anything. -/
def NamesBelow (entry : String) : Prop :=
  isValid (c.resolve entry) = true → IsStrictlyBelow c.config.nodePath (c.resolve entry)

/-- What is left of an entry when the node root in front of it is taken off, and then all slashes in
front. -/
def remainder (entry : String) : List Char :=
  (((c.config.nodeRoot.toList ++ ['/']).isPrefixOf? entry.toList).getD entry.toList).dropWhile
    (· == '/')

/-- A relative entry resolves to the node root, or goes on behind it with a slash. -/
theorem toList_resolve (hrelative : IsRelative entry) :
    (c.resolve entry).toList =
      if c.remainder entry = [] then c.config.nodePath.toList
      else c.config.nodePath.toList ++ '/' :: c.remainder entry := by
  have habsolute : ¬ ['/'].isPrefixOf entry.toList = true := by
    intro hfront
    rcases List.isPrefixOf_iff_prefix.1 hfront with ⟨rest, hrest⟩
    apply hrelative
    rw [← hrest]
    rfl
  have hjoined := toList_join_base c.isEntryPath_nodePath
    (String.ofList (((c.config.nodeRoot.toList ++ ['/']).isPrefixOf? entry.toList).getD
      entry.toList))
  rw [String.toList_ofList] at hjoined
  unfold resolve remainder
  rw [if_neg habsolute]
  exact hjoined

/-- Nothing is left of an entry that is not empty exactly when it is the node root with nothing but
slashes behind it. -/
theorem remainder_eq_nil_iff (hrelative : IsRelative entry) (hne : entry ≠ "") :
    c.remainder entry = [] ↔ c.NamesRoot entry := by
  unfold remainder
  rw [List.dropWhile_eq_nil_iff]
  constructor
  · intro hempty
    cases hstrip : (c.config.nodeRoot.toList ++ ['/']).isPrefixOf? entry.toList with
    | none =>
        -- the entry begins with some other character, which is left
        rw [hstrip, Option.getD_none] at hempty
        cases hchars : entry.toList with
        | nil => exact absurd (String.toList_eq_nil_iff.1 hchars) hne
        | cons first rest =>
            have hfirst : first = '/' := by simpa using hempty first (by simp [hchars])
            exact absurd (by simp [hchars, hfirst]) hrelative
    | some rest =>
        rw [hstrip, Option.getD_some] at hempty
        have hslashes : rest = List.replicate rest.length '/' :=
          List.eq_replicate_iff.2 ⟨rfl, fun x hx => by simpa using hempty x hx⟩
        refine ⟨rest.length, ?_⟩
        rw [← hslashes, ← List.append_eq_of_isPrefixOf?_eq_some hstrip, List.append_assoc]
        rfl
  · rintro ⟨more, hentry⟩
    have hstrip : (c.config.nodeRoot.toList ++ ['/']).isPrefixOf? entry.toList =
        some (List.replicate more '/') := by
      apply List.isPrefixOf?_eq_some_iff_append_eq.2
      rw [hentry, List.append_assoc]
      rfl
    rw [hstrip, Option.getD_some]
    intro x hx
    simpa using List.eq_of_mem_replicate hx

theorem resolve_of_namesRoot (hrelative : IsRelative entry) (hne : entry ≠ "")
    (hroot : c.NamesRoot entry) : c.resolve entry = c.config.nodePath := by
  have hchars := c.toList_resolve hrelative
  rw [if_pos ((c.remainder_eq_nil_iff hrelative hne).2 hroot)] at hchars
  exact String.toList_inj.1 hchars

/-- A relative entry names something strictly below the node root unless it is the root itself. -/
theorem namesBelow_iff (hrelative : IsRelative entry) (hne : entry ≠ "") :
    c.NamesBelow entry ↔ ¬ c.NamesRoot entry := by
  constructor
  · intro hbelow hroot
    have hresolved := c.resolve_of_namesRoot hrelative hne hroot
    unfold NamesBelow at hbelow
    rw [hresolved] at hbelow
    exact (hbelow (isValid_of_isEntryPath c.isEntryPath_nodePath)).ne rfl
  · intro hroot hvalid
    have hchars := c.toList_resolve hrelative
    rw [if_neg fun hempty => hroot ((c.remainder_eq_nil_iff hrelative hne).1 hempty)] at hchars
    -- the path of the node root is not empty, so the longer path is not the root of the tree
    have hentry : Store.isEntryPath (c.resolve entry) = true := by
      apply Bool.and_eq_true_iff.2 ⟨hvalid, bne_iff_ne.2 fun htop => ?_⟩
      rw [htop] at hchars
      cases hnode : c.config.nodePath.toList with
      | nil =>
          exact ne_empty_of_isEntryPath c.isEntryPath_nodePath (String.toList_eq_nil_iff.1 hnode)
      | cons first rest =>
          rw [hnode] at hchars
          simp [root] at hchars
    exact isStrictlyBelow_of_append hentry hchars

end Client

/-! ## Accepting -/

/-- The path whose lock is asked for. -/
def Exchange.askedPath? : Exchange → Option String
  | ⟨.acquire path, _⟩ => some path
  | _ => none

theorem Taken.asked (taken : List Taken) :
    (taken.flatMap Taken.exchanges).filterMap Exchange.askedPath? = taken.map (·.path) := by
  induction taken with
  | nil => rfl
  | cons t rest ih => exact congrArg (t.path :: ·) ih

theorem Halt.asked (halt : Halt) :
    halt.exchanges.filterMap Exchange.askedPath? = [halt.path] := by
  cases halt <;> rfl

theorem ReleaseAttempt.asked (attempts : List ReleaseAttempt) :
    (attempts.map ReleaseAttempt.exchange).filterMap Exchange.askedPath? = [] := by
  induction attempts with
  | nil => rfl
  | cons a rest ih => exact ih

namespace Client

open Procedure

variable {c : Client} {r : NodeRequest} {dialogue : List Exchange} {events : List Event}
  {outcome : AcceptOutcome}

theorem LockRun.asked {id : String} {held : List NodeHandle} {entries : List String}
    (h : LockRun c id held entries dialogue events outcome) :
    dialogue.filterMap Exchange.askedPath? <+: entries.map c.resolve := by
  cases h with
  | locked taken paths =>
      have hasked := (Taken.asked taken).trans paths
      exact hasked ▸ List.prefix_rfl
  | halted taken halt attempts paths released =>
      rw [List.filterMap_append, List.filterMap_append, Taken.asked, halt.asked,
        ReleaseAttempt.asked, List.append_nil]
      exact paths

/-- Whatever the calls are answered, accepting asks for the locks of what the entries resolve to, in
their order, and for no other lock. -/
theorem accept_asked (h : (c.accept r).Tells dialogue events outcome) :
    dialogue.filterMap Exchange.askedPath? <+: r.allocatedNodes.map c.resolve := by
  cases hplaced : r.path with
  | none =>
      rw [accept, hplaced] at h
      rcases h with ⟨rfl, -, -⟩
      exact List.nil_prefix
  | some path =>
      by_cases hnodes : r.allocatedNodes = []
      · -- the only call is the deletion
        rw [accept, hplaced] at h
        dsimp only at h
        rw [if_pos hnodes] at h
        rcases tells_note_bind.1 h with ⟨later, rfl, hdeleting⟩
        rcases tells_bind hdeleting with
          ⟨first, rest, early, late, report, rfl, rfl, hdelete, rfl, -, -⟩
        rcases deleteNode_tells hdelete with ⟨answer, rfl, -, -⟩
        exact List.nil_prefix
      · rcases accept_tells hplaced hnodes h with ⟨locking, deletion⟩
        have hdeletion : [⟨.delete path, deletion⟩].filterMap Exchange.askedPath? = [] := rfl
        rw [List.filterMap_append, hdeletion, List.append_nil]
        exact LockRun.asked locking

end Client

open Client in
/-- A relative entry names something strictly below the node root unless it is the node root with
nothing but slashes behind it, and that names the node root itself.  Accepting a request, over any
session, asks for the locks of what the entries name, in order, and for no other lock. -/
theorem names_below_iff {σ : Type} (c : Client) (session : Session σ) (s : σ) (r : NodeRequest) :
    (∀ entry, entry ≠ "" → IsRelative entry →
      (c.NamesBelow entry ↔ ¬ c.NamesRoot entry) ∧
        (c.NamesRoot entry → c.resolve entry = c.config.nodePath)) ∧
      ((c.accept r).exchanges session s).filterMap Exchange.askedPath? <+:
        r.allocatedNodes.map c.resolve := by
  constructor
  · intro entry hne hrelative
    exact ⟨c.namesBelow_iff hrelative hne, c.resolve_of_namesRoot hrelative hne⟩
  · exact accept_asked (Procedure.tells_run session (c.accept r) s)

/-- A second name behind the node root may be the name of the node root again. -/
theorem names_below_doubled :
    let s := ((Service.fresh {} .halfMinute).after contended).store
    Client.byDefault.NamesBelow "nodes//nodes" ∧
      Client.byDefault.resolve "nodes//nodes" = "/nodepool/nodes/nodes" ∧
      ((Client.byDefault.accept .ofTwoNodes).exchanges (.plain ⟨1⟩) s).filterMap
        Exchange.askedPath? = ["/nodepool/nodes/1", "/nodepool/nodes/2"] := by
  intro s
  have hrelative : Client.IsRelative "nodes//nodes" := by decide
  have hroot : ¬ Client.byDefault.NamesRoot "nodes//nodes" :=
    (Client.byDefault.remainder_eq_nil_iff hrelative (by decide)).not.1 (by decide)
  have hentries := (names_below_iff .byDefault (.plain ⟨1⟩) s .ofTwoNodes).1
  exact ⟨(hentries "nodes//nodes" (by decide) hrelative).1.2 hroot, by decide, by decide⟩

/-! ## The node root -/

/-- Whether every relative entry names something strictly below the node root. -/
def AlwaysBelow : Prop :=
  ∀ (c : Client) (entry : String), entry ≠ "" → Client.IsRelative entry → c.NamesBelow entry

/-- An entry that ends in the slash behind the node root names the node root. -/
theorem not_alwaysBelow : ¬ AlwaysBelow := by
  intro h
  have hbelow := h .byDefault "nodes/" (by decide) (by decide)
  have hroot : Client.byDefault.resolve "nodes/" = Client.byDefault.config.nodePath := by decide
  unfold Client.NamesBelow at hbelow
  rw [hroot] at hbelow
  exact (hbelow (by decide)).ne rfl

end FencedPool
