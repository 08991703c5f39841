import FencedPool.Proofs.Path.Names
import FencedPool.Proofs.Store.Numbering
import FencedPool.Proofs.Store.TreeShape
import Mathlib.Data.List.Perm.Subperm
import Mathlib.Data.List.Sort

/-!
# Children — which entries are listed below a path, and in which order

The paths of all descendants begin with the path and a slash, so they stand together among the
ascending paths of all entries, and the listing need not look further than that.  Whatever has been
done to the store, it finds the entries whose parent the path is.  Sequence numbers are padded, so
among these the paths that were put together from one stem are in the order of their creation until
the numbers have more digits than they are padded to.

This file defines:

* `Store.ListsChildren` — which paths are listed;
* `Service.assignedAlong` — the paths that a run assigns;
* `Service.KeepsOrder` — that they are listed in the order in which they were assigned;
* `Store.DeletesLeaves` — what becomes of an entry that is to be deleted.

The main statement is `children_listed`.
-/

namespace FencedPool

open FencedPool.Path

/-! ## Listing -/

namespace Store

variable {s : Store} {p q : String}

/-- The children of a path are the entries that have it as their parent. -/
theorem mem_children_iff_parent? (hs : s.Rooted) (hp : isValid p = true) :
    q ∈ s.children p ↔ s.entries.contains q = true ∧ parent? q = some p := by
  rw [mem_children_iff_names hs hp]
  refine and_congr_right fun hentry => ?_
  rw [parent?_eq_some_iff_names hp (isEntryPath_of_contains hs hentry)]

/-- An entry has descendants exactly when it has children, since the tree has no gaps. -/
theorem hasDescendant_iff_children (hs : s.Rooted) (hp : isEntryPath p = true) :
    s.hasDescendant p = true ↔ s.children p ≠ [] := by
  have hvalid : isValid p = true := isValid_of_isEntryPath hp
  rw [hasDescendant_iff hp]
  constructor
  · rintro ⟨below, hbelow, habove⟩
    rcases (isAbove_iff_names (isEntryPath_of_contains hs hbelow)).1 habove with
      ⟨-, ⟨rest, hrest⟩, hne⟩
    cases rest with
    | nil => exact absurd (by simpa using hrest) hne
    | cons name more =>
        -- the entry that goes on with the next name only is a child
        have hleading : names p ++ [name] <+: names below := ⟨more, by simp [← hrest]⟩
        rcases exists_entry_of_prefix hs hbelow (by simp) hleading with ⟨child, hchild, hnames⟩
        exact List.ne_nil_of_mem ((mem_children_iff_names hs hvalid).2 ⟨hchild, name, hnames⟩)
  · intro hchildren
    rcases List.exists_mem_of_ne_nil _ hchildren with ⟨child, hchild⟩
    rcases (mem_children_iff_names hs hvalid).1 hchild with ⟨hentry, name, hnames⟩
    refine ⟨child, hentry, (isAbove_iff_names (isEntryPath_of_contains hs hentry)).2 ?_⟩
    rw [hnames]
    exact ⟨hp, List.prefix_append _ _, by simp⟩

/-- Which paths are listed below a path: in ascending order of their bytes, each once, those of the
entries whose parent it is.  So neither the path itself is listed, nor what stands deeper, nor what
belongs to a sibling whose name goes on behind that of the path. -/
structure ListsChildren (s : Store) (p : String) (listed : List String) : Prop where
  ascending : listed.Pairwise fun a b => Utf8.bytes a < Utf8.bytes b
  nodup : listed.Nodup
  mem_iff : ∀ q, q ∈ listed ↔ s.entries.contains q = true ∧ parent? q = some p
  not_self : p ∉ listed
  not_deeper : ∀ q ∈ listed, ∀ below, IsAbove q below → below ∉ listed
  not_sibling : p ≠ root → ∀ c more sibling, c ≠ '/' → sibling.toList = p.toList ++ c :: more →
    sibling ∉ listed

theorem listsChildren (hs : s.Rooted) (hp : isValid p = true) :
    s.ListsChildren p (s.children p) where
  ascending := (s.pairwise_children p).imp Utf8.bytes_lt_bytes_iff.2
  nodup := s.nodup_children p
  mem_iff _ := mem_children_iff_parent? hs hp
  not_self hself := by
    rcases (mem_children_iff_names hs hp).1 hself with ⟨-, name, hnames⟩
    exact absurd hnames (by simp)
  not_deeper q hq below habove hbelow := by
    rcases (mem_children_iff_names hs hp).1 hq with ⟨-, name, hnames⟩
    rcases (mem_children_iff_names hs hp).1 hbelow with ⟨hentry, name', hnames'⟩
    -- what stands below a child has more names than a child
    rcases (isAbove_iff_names (isEntryPath_of_contains hs hentry)).1 habove with
      ⟨-, hleading, hne⟩
    refine hne (hleading.eq_of_length ?_)
    rw [hnames, hnames', List.length_append, List.length_append]
    rfl
  not_sibling hroot c more sibling hc hsibling hlisted := by
    rcases exists_name_of_parent? ((mem_children_iff_parent? hs hp).1 hlisted).2 hroot with
      ⟨-, name, -, hname⟩
    rw [hsibling] at hname
    exact hc (List.cons.inj (List.append_cancel_left hname)).1

/-! ## Deletion -/

/-- What becomes of an entry that is to be deleted: while it has children it is refused and nothing
has changed, and otherwise the entry is gone, the watches on it are told, and all else is as it
was. -/
def DeletesLeaves (s : Store) (p : String) : Prop :=
  s.delete p =
    if s.children p = [] then
      (.ok (), { s with
        entries := s.entries.erase p
        watches := s.watches.map (·.notify (.deleted p)) })
    else (.error (.notEmpty p), s)

theorem deletesLeaves (hs : s.Rooted) (hentry : s.entries.contains p = true) :
    s.DeletesLeaves p := by
  have hp := isEntryPath_of_contains hs hentry
  have hleaf := hasDescendant_iff_children hs hp
  unfold DeletesLeaves delete checkingPath
  rw [if_pos hp, hentry]
  by_cases hchildren : s.children p = []
  · have hnone : ¬ s.hasDescendant p = true := fun h => hleaf.1 h hchildren
    rw [if_pos hchildren, if_neg hnone]
    rfl
  · rw [if_neg hchildren, if_pos (hleaf.2 hchildren)]
    rfl

end Store

/-! ## Order of assignment -/

/-- Whether a path has been put together below a given parent. -/
def Assignment.isBelow (x : Assignment) (parent : String) : Bool := parent? x.stem = some parent

namespace Service

variable {s : Service} {p : String}

/-- The paths that a run assigns, in the order of the creations. -/
def assignedAlong (s : Service) : List ServiceAction → List Assignment
  | [] => []
  | a :: rest => (s.assigned? a).toList ++ (s.act a).assignedAlong rest

/-- The paths that a run assigns below a parent. -/
def assignedBelow (s : Service) (p : String) (actions : List ServiceAction) : List Assignment :=
  (s.assignedAlong actions).filter (·.isBelow p)

theorem assignedBelow_cons (s : Service) (p : String) (a : ServiceAction)
    (rest : List ServiceAction) :
    s.assignedBelow p (a :: rest) =
      (s.assigned? a).toList.filter (·.isBelow p) ++ (s.act a).assignedBelow p rest :=
  List.filter_append _ _

/-- Below a parent an action is assigned the next number, or no number is used up. -/
theorem assigned?_below (hs : s.store.EntriesSound) (a : ServiceAction) (p : String) :
    ((s.assigned? a).toList.filter (·.isBelow p) = [] ∧
        (s.act a).store.counter p = s.store.counter p) ∨
      ∃ stem, (s.assigned? a).toList.filter (·.isBelow p) = [⟨stem, s.store.nextPath p stem⟩] ∧
        Store.isEntryPath p = true ∧ (s.act a).store.counter p = s.store.counter p + 1 := by
  rcases s.act_assigns hs a with ⟨hnone, hsame⟩ | ⟨parent, stem, hsome, hstem, hentry, hcounter⟩
  · exact .inl ⟨by rw [hnone]; rfl, Store.counter_congr hsame p⟩
  · rw [hsome, hcounter, Store.counter_numbering, Option.toList_some]
    by_cases hp : p = parent
    · subst hp
      refine .inr ⟨stem, ?_, hentry, if_pos rfl⟩
      exact List.filter_cons_of_pos (by simpa [Assignment.isBelow] using hstem)
    · refine .inl ⟨?_, if_neg hp⟩
      refine List.filter_cons_of_neg ?_
      simpa [Assignment.isBelow, hstem] using fun h => hp h.symm

/-- A parent's count says how many paths have been assigned below it. -/
theorem counter_after (hs : s.store.EntriesSound) (actions : List ServiceAction) (p : String) :
    (s.after actions).store.counter p =
      s.store.counter p + (s.assignedBelow p actions).length := by
  induction actions generalizing s with
  | nil => rfl
  | cons a rest ih =>
      rw [after_cons, ih (s.act_entriesSound a hs), assignedBelow_cons, List.length_append]
      rcases assigned?_below hs a p with ⟨hlist, hcounter⟩ | ⟨stem, hlist, -, hcounter⟩
      · rw [hlist, hcounter, List.length_nil, Nat.zero_add]
      · rw [hlist, hcounter, List.length_singleton, Nat.add_assoc]

/-- What is assigned below a parent has a number from the count on. -/
theorem number_of_assignedBelow (hs : s.store.EntriesSound) {actions : List ServiceAction}
    {x : Assignment} (hx : x ∈ s.assignedBelow p actions) :
    Store.isEntryPath p = true ∧ ∃ number, s.store.counter p ≤ number ∧
      number < (s.after actions).store.counter p ∧
      x.path = x.stem ++ Text.padded 10 Store.sequenceDigits number := by
  induction actions generalizing s with
  | nil => cases hx
  | cons a rest ih =>
      have hnext := s.act_entriesSound a hs
      have hcount := counter_after hnext rest p
      rw [after_cons]
      rw [assignedBelow_cons] at hx
      rcases assigned?_below hs a p with ⟨hlist, hcounter⟩ | ⟨stem, hlist, hp, hcounter⟩
      · rw [hlist, List.nil_append] at hx
        rw [← hcounter]
        exact ih hnext hx
      · rw [hlist] at hx
        rcases List.mem_append.1 hx with hx | hx
        · obtain rfl := List.mem_singleton.1 hx
          exact ⟨hp, s.store.counter p, Nat.le_refl _, by omega, rfl⟩
        · rcases ih hnext hx with ⟨-, number, hle, hlt, hpath⟩
          exact ⟨hp, number, by omega, hlt, hpath⟩

/-- As long as the numbers have no more digits than they are padded to, the paths that are put
together from one stem ascend. -/
theorem pairwise_assignedBelow (hs : s.store.EntriesSound) {actions : List ServiceAction}
    (hfew : (s.after actions).store.counter p ≤ 10 ^ Store.sequenceDigits) :
    (s.assignedBelow p actions).Pairwise fun x y => x.stem = y.stem → x.path < y.path := by
  induction actions generalizing s with
  | nil => exact .nil
  | cons a rest ih =>
      have hnext := s.act_entriesSound a hs
      rw [after_cons] at hfew
      rw [assignedBelow_cons]
      rcases assigned?_below hs a p with ⟨hlist, -⟩ | ⟨stem, hlist, -, hcounter⟩
      · rw [hlist]
        exact ih hnext hfew
      · rw [hlist]
        refine List.pairwise_cons.2 ⟨fun y hy hstem => ?_, ih hnext hfew⟩
        rcases number_of_assignedBelow hnext hy with ⟨-, number, hle, hlt, hpath⟩
        rw [hpath, ← hstem, String.lt_iff]
        simp only [Store.nextPath, String.toList_append]
        refine List.append_left_lt (Text.padded_lt_of_lt (by decide) (by omega) ?_)
        change s.store.counter p < number
        omega

/-- The paths that a run puts together from a stem, in the order of the creations. -/
def assignedFrom (s : Service) (stem : String) (actions : List ServiceAction) : List String :=
  ((s.assignedAlong actions).filter (·.stem = stem)).map (·.path)

theorem assignedFrom_eq {stem : String} (hstem : parent? stem = some p)
    (actions : List ServiceAction) :
    s.assignedFrom stem actions =
      ((s.assignedBelow p actions).filter (·.stem = stem)).map (·.path) := by
  unfold assignedFrom assignedBelow
  rw [List.filter_filter]
  congr 1
  refine List.filter_congr fun x _ => ?_
  by_cases hx : x.stem = stem
  · simp [hx, Assignment.isBelow, hstem]
  · simp [hx]

theorem pairwise_assignedFrom (hs : s.store.EntriesSound) {actions : List ServiceAction}
    {stem : String} (hstem : parent? stem = some p)
    (hfew : (s.after actions).store.counter p ≤ 10 ^ Store.sequenceDigits) :
    (s.assignedFrom stem actions).Pairwise (· < ·) := by
  rw [assignedFrom_eq hstem, List.pairwise_map]
  refine ((pairwise_assignedBelow hs hfew).filter _).imp_of_mem fun hx hy hlt => hlt ?_
  rw [of_decide_eq_true (List.mem_filter.1 hx).2, of_decide_eq_true (List.mem_filter.1 hy).2]

/-- A path that is put together from a stem has the same parent. -/
theorem parent?_of_mem_assignedFrom (hs : s.store.EntriesSound) {actions : List ServiceAction}
    {stem q : String} (hstem : parent? stem = some p) (hq : q ∈ s.assignedFrom stem actions) :
    parent? q = some p := by
  rw [assignedFrom_eq hstem] at hq
  rcases List.mem_map.1 hq with ⟨x, hx, rfl⟩
  rcases List.mem_filter.1 hx with ⟨hbelow, hxStem⟩
  rcases number_of_assignedBelow hs hbelow with ⟨hp, number, -, -, hpath⟩
  have hroot : p ≠ root := ne_root_of_isEntryPath hp
  rcases exists_name_of_parent? hstem hroot with ⟨hne, name, hname, hchars⟩
  have hlonger : '/' ∉ name ++ (Text.padded 10 Store.sequenceDigits number).toList := by
    intro hslash
    rcases List.mem_append.1 hslash with hslash | hslash
    · exact hname hslash
    · cases Text.isDigit_of_mem_padded hslash
  refine parent?_eq_some hne hlonger ?_
  rw [hpath, of_decide_eq_true hxStem, String.toList_append, hchars, List.append_assoc,
    List.cons_append]

/-- The entries among them are listed in the order in which their paths were assigned. -/
theorem assignedFrom_sublist_children (hs : s.store.EntriesSound) {actions : List ServiceAction}
    {stem : String} (hp : isValid p = true) (hstem : parent? stem = some p)
    (hfew : (s.after actions).store.counter p ≤ 10 ^ Store.sequenceDigits) :
    ((s.assignedFrom stem actions).filter (s.after actions).store.entries.contains).Sublist
      ((s.after actions).store.children p) := by
  have hafter : (s.after actions).store.EntriesSound :=
    after_preserves act_entriesSound s actions hs
  have hascending := (pairwise_assignedFrom hs hstem hfew).filter
    (s.after actions).store.entries.contains
  refine List.sublist_of_subperm_of_pairwise (List.Nodup.subperm hascending.nodup fun q hq => ?_)
    hascending (Store.pairwise_children _ p)
  rcases List.mem_filter.1 hq with ⟨hassigned, hentry⟩
  exact (Store.mem_children_iff_parent? hafter.rooted hp).2
    ⟨hentry, parent?_of_mem_assignedFrom hs hstem hassigned⟩

end Service

/-- Whatever has been done to a store, the children of a well-formed path are the entries that have
it as their parent, in the order of their bytes.  Entries that were created from one stem stand in
the order of their creation while no more numbers have been used up than have ten digits.  An entry
can be deleted exactly when it has no children, and nothing else goes with it. -/
theorem children_listed (clock : Clock) (timeout : Duration) (actions : List ServiceAction)
    {p : String} (hp : isValid p = true) :
    let start := Service.fresh clock timeout
    let s := (start.after actions).store
    s.ListsChildren p (s.children p) ∧
      ((start.assignedBelow p actions).length ≤ 10 ^ Store.sequenceDigits →
        ∀ stem, parent? stem = some p →
          ((start.assignedFrom stem actions).filter s.entries.contains).Sublist (s.children p)) ∧
      (s.entries.contains p = true → s.DeletesLeaves p) := by
  intro start s
  have hreachable : s.Reachable := ⟨clock, timeout, actions, rfl⟩
  have hstart : start.store.EntriesSound := Store.Reachable.entriesSound ⟨clock, timeout, [], rfl⟩
  have hrooted := hreachable.entriesSound.rooted
  refine ⟨Store.listsChildren hrooted hp, fun hfew stem hstem => ?_, Store.deletesLeaves hrooted⟩
  refine Service.assignedFrom_sublist_children hstart hp hstem ?_
  rw [Service.counter_after hstart]
  -- a fresh store counts from zero
  exact (Nat.zero_add _).symm ▸ hfew

/-- Entries beside, below and among those that are created from one stem. -/
def crowd : List ServiceAction :=
  [.openSession, .put "/a-b" [], .put "/a/r-0000000001" [], .call ⟨1⟩ (.create "/a/r-" []),
    .call ⟨1⟩ (.create "/a/r-" []), .call ⟨1⟩ (.create "/a/r-" []), .put "/a/r/deeper" []]

/-- A number is used up although an entry stands in the way, and that entry is listed where the
number puts it. -/
theorem children_listed_crowd :
    let start := Service.fresh {} .halfMinute
    let s := (start.after crowd).store
    isValid "/a" = true ∧ s.ListsChildren "/a" (s.children "/a") ∧
      s.children "/a" = ["/a/r", "/a/r-0000000000", "/a/r-0000000001", "/a/r-0000000002"] ∧
      ((start.assignedFrom "/a/r-" crowd).filter s.entries.contains).Sublist (s.children "/a") ∧
      start.assignedFrom "/a/r-" crowd =
        ["/a/r-0000000000", "/a/r-0000000001", "/a/r-0000000002"] := by
  have hvalid : isValid "/a" = true := by decide
  have hstem : parent? "/a/r-" = some "/a" := by decide
  rcases children_listed {} .halfMinute crowd hvalid with ⟨hlists, horder, -⟩
  exact ⟨hvalid, hlists, by decide +kernel, horder (by decide +kernel) "/a/r-" hstem,
    by decide +kernel⟩

end FencedPool
