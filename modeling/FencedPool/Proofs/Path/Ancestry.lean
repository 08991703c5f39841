import FencedPool.Store

/-!
# Ancestry — which paths stand above which

A path stands above another when the other goes on behind it with a slash.  A well-formed path is
spelled by the names of its segments, and the paths above it are spelled by the leading ones.  The
store appends digits to whatever text it is given, so what holds of all texts is kept apart from
what holds of well-formed paths.

This file defines:

* `Path.IsAbove` — one path above another, with `mem_ancestors_iff` and `pairwise_ancestors`;
* `Path.spell` and `Path.names` — paths as lists of names, with `isEntryPath_iff`;
* `isChild_iff` — the direct children of a path are those with one name more.
-/

namespace FencedPool

namespace Path

/-! ## Paths above a text -/

/-- Whether a path other than the root stands above another. -/
def IsAbove (above path : String) : Prop :=
  above ≠ "" ∧ ∃ rest, path.toList = above.toList ++ '/' :: rest

theorem IsAbove.trans {a b c : String} (hab : IsAbove a b) (hbc : IsAbove b c) : IsAbove a c := by
  rcases hab with ⟨ha, rest, hb⟩
  rcases hbc with ⟨-, more, hc⟩
  refine ⟨ha, rest ++ '/' :: more, ?_⟩
  simp [hc, hb]

theorem IsAbove.irrefl (path : String) : ¬ IsAbove path path := by
  rintro ⟨-, rest, hrest⟩
  have hlength := congrArg List.length hrest
  simp only [List.length_append, List.length_cons] at hlength
  omega

theorem mem_beforeSlashes_iff {text above : List Char} :
    above ∈ beforeSlashes text ↔ ∃ rest, text = above ++ '/' :: rest := by
  induction text generalizing above with
  | nil => simp [beforeSlashes]
  | cons c rest ih =>
      have hlonger : above ∈ (beforeSlashes rest).map (c :: ·) ↔
          ∃ shorter more, rest = shorter ++ '/' :: more ∧ c :: shorter = above := by
        simp only [List.mem_map, ih]
        constructor
        · rintro ⟨shorter, ⟨more, hrest⟩, habove⟩
          exact ⟨shorter, more, hrest, habove⟩
        · rintro ⟨shorter, more, hrest, habove⟩
          exact ⟨shorter, ⟨more, hrest⟩, habove⟩
      -- the text above is empty, or it begins as the whole text does
      cases above with
      | nil =>
          have hnot : ([] : List Char) ∉ (beforeSlashes rest).map (c :: ·) := by simp
          by_cases hc : c = '/'
          · simp [beforeSlashes, hc]
          · simp [beforeSlashes, hc]
      | cons d above =>
          have hmem : d :: above ∈ beforeSlashes (c :: rest) ↔
              d :: above ∈ (beforeSlashes rest).map (c :: ·) := by
            by_cases hc : c = '/' <;> simp [beforeSlashes, hc]
          rw [hmem, hlonger]
          constructor
          · rintro ⟨shorter, more, rfl, heq⟩
            cases heq
            exact ⟨more, rfl⟩
          · rintro ⟨more, heq⟩
            cases heq
            exact ⟨above, more, rfl, rfl⟩

/-- The ancestors of any text are the paths above it, but for the root. -/
theorem mem_ancestors_iff {above path : String} :
    above ∈ ancestors path ↔ IsAbove above path ∧ above ≠ root := by
  have hempty : above.toList ≠ [] ↔ above ≠ "" := by simp
  have hroot : above.toList ≠ ['/'] ↔ above ≠ root := by
    have h : root.toList = ['/'] := rfl
    rw [← h, ne_eq, ne_eq, String.toList_inj]
  have hlist : above ∈ ancestors path ↔
      (above.toList ∈ beforeSlashes path.toList ∧ above.toList ≠ [] ∧ above.toList ≠ ['/']) := by
    unfold ancestors
    simp only [List.mem_map, List.mem_filter, decide_eq_true_eq]
    constructor
    · rintro ⟨chars, hchars, rfl⟩
      simpa using hchars
    · intro h
      exact ⟨above.toList, h, String.ofList_toList⟩
  rw [hlist, mem_beforeSlashes_iff, hempty, hroot]
  unfold IsAbove
  constructor
  · rintro ⟨hrest, hne, hnotRoot⟩
    exact ⟨⟨hne, hrest⟩, hnotRoot⟩
  · rintro ⟨⟨hne, hrest⟩, hnotRoot⟩
    exact ⟨hrest, hne, hnotRoot⟩

theorem pairwise_beforeSlashes (text : List Char) :
    (beforeSlashes text).Pairwise fun a b => ∃ rest, b = a ++ '/' :: rest := by
  induction text with
  | nil => exact .nil
  | cons c rest ih =>
      have hlonger : ((beforeSlashes rest).map (c :: ·)).Pairwise
          fun a b => ∃ rest, b = a ++ '/' :: rest := by
        refine List.pairwise_map.2 (ih.imp ?_)
        rintro a b ⟨more, rfl⟩
        exact ⟨more, rfl⟩
      by_cases hc : c = '/'
      · -- the empty text comes first, and all others go on with the slash
        subst hc
        simp only [beforeSlashes, if_true]
        refine List.pairwise_cons.2 ⟨?_, hlonger⟩
        intro b hb
        rcases List.mem_map.1 hb with ⟨more, -, rfl⟩
        exact ⟨more, rfl⟩
      · simp only [beforeSlashes, if_neg hc]
        exact hlonger

/-- Each ancestor stands above all later ones. -/
theorem pairwise_ancestors (path : String) : (ancestors path).Pairwise IsAbove := by
  unfold ancestors
  refine List.pairwise_map.2 ?_
  refine ((pairwise_beforeSlashes path.toList).filter _).imp_of_mem ?_
  rintro a b ha - ⟨rest, rfl⟩
  have hne : a ≠ [] := by
    have hboth := (List.mem_filter.1 ha).2
    simp only [decide_eq_true_eq] at hboth
    exact hboth.1
  exact ⟨by simpa using hne, rest, by simp⟩

/-- Above a child stand its parent and what stands above that. -/
theorem isAbove_child_iff {above parent path : String} {name : List Char} (hparent : parent ≠ "")
    (hname : '/' ∉ name) (hpath : path.toList = parent.toList ++ '/' :: name) :
    IsAbove above path ↔ above = parent ∨ IsAbove above parent := by
  constructor
  · rintro ⟨hne, rest, hrest⟩
    rw [hpath] at hrest
    -- the slash behind the path above is the last one, or one before it
    rcases List.append_eq_append_iff.1 hrest with ⟨more, habove, hmore⟩ | ⟨more, hlonger, hmore⟩
    · cases more with
      | nil =>
          left
          exact String.toList_inj.1 (by simpa using habove)
      | cons c more =>
          rw [List.cons_append] at hmore
          have hslash : '/' ∈ name := by simp [(List.cons.inj hmore).2]
          exact absurd hslash hname
    · cases more with
      | nil =>
          left
          exact (String.toList_inj.1 (by simpa using hlonger)).symm
      | cons c more =>
          rw [List.cons_append] at hmore
          obtain ⟨rfl, -⟩ := List.cons.inj hmore
          exact .inr ⟨hne, more, hlonger⟩
  · rintro (rfl | ⟨hne, rest, hrest⟩)
    · exact ⟨hparent, name, hpath⟩
    · exact ⟨hne, rest ++ '/' :: name, by simp [hpath, hrest]⟩

/-- A parent other than the root is what stands before the last slash. -/
theorem exists_name_of_parent? {path parent : String} (h : parent? path = some parent)
    (hroot : parent ≠ root) :
    parent ≠ "" ∧ ∃ name, '/' ∉ name ∧ path.toList = parent.toList ++ '/' :: name := by
  unfold parent? at h
  split at h
  · cases h
  · split at h
    · cases h
    · exact absurd (Option.some.inj h).symm hroot
    · next above name hne hcut =>
        obtain rfl : String.ofList above = parent := Option.some.inj h
        rcases cutLast_eq_some_iff.1 hcut with ⟨hpath, hname⟩
        refine ⟨?_, name, hname, by simpa using hpath⟩
        intro hempty
        exact hne (by simpa using hempty)

/-- What stands before the last slash is the parent. -/
theorem parent?_eq_some {parent path : String} {name : List Char} (hparent : parent ≠ "")
    (hname : '/' ∉ name) (hpath : path.toList = parent.toList ++ '/' :: name) :
    parent? path = some parent := by
  have hnil : parent.toList ≠ [] := fun h => hparent (String.toList_inj.1 h)
  have hroot : path ≠ root := by
    rintro rfl
    have hlength := congrArg List.length hpath
    have hroot : root.toList.length = 1 := rfl
    simp only [hroot, List.length_append, List.length_cons] at hlength
    exact hnil (List.length_eq_zero_iff.1 (by omega))
  have hcut : cutLast '/' path.toList = some (parent.toList, name) := by
    rw [hpath, cutLast_append _ hname]
  unfold parent?
  rw [if_neg hroot, hcut]
  cases hchars : parent.toList with
  | nil => exact absurd hchars hnil
  | cons d rest =>
      change some (String.ofList (d :: rest)) = some parent
      rw [← hchars, String.ofList_toList]

/-- What stands behind the last slash is the last segment. -/
theorem lastSegment_eq {parent path : String} {name : List Char} (hname : '/' ∉ name)
    (hpath : path.toList = parent.toList ++ '/' :: name) :
    lastSegment path = String.ofList name := by
  unfold lastSegment
  rw [hpath, cutLast_append _ hname]

/-! ## Paths spelled by names -/

/-- What a path below the root is written as when its segments have given names. -/
def spell (names : List (List Char)) : List Char := names.flatMap ('/' :: ·)

/-- Whether a text can name a segment. -/
def IsName (name : List Char) : Prop := name ≠ [] ∧ '/' ∉ name

/-- The names of the segments of a path. -/
def names (path : String) : List (List Char) :=
  if path = root then [] else segments path.toList.tail

@[simp] theorem spell_nil : spell [] = [] := rfl

@[simp] theorem spell_cons (name : List Char) (more : List (List Char)) :
    spell (name :: more) = '/' :: (name ++ spell more) := rfl

@[simp] theorem spell_append (first rest : List (List Char)) :
    spell (first ++ rest) = spell first ++ spell rest :=
  List.flatMap_append

theorem spell_segments (text : List Char) : spell (segments text) = '/' :: text := by
  induction text with
  | nil => rfl
  | cons c rest ih =>
      by_cases hc : c = '/'
      · simp [segments, hc, ih]
      · cases hrest : segments rest with
        | nil =>
            rw [hrest] at ih
            cases ih
        | cons first more =>
            rw [hrest] at ih
            have htail : first ++ spell more = rest := (List.cons.inj ih).2
            simp [segments, hc, hrest, htail]

theorem not_mem_of_mem_segments {text name : List Char} (h : name ∈ segments text) :
    '/' ∉ name := by
  induction text generalizing name with
  | nil =>
      obtain rfl : name = [] := by simpa [segments] using h
      exact List.not_mem_nil
  | cons c rest ih =>
      by_cases hc : c = '/'
      · simp only [segments, if_pos hc] at h
        rcases List.mem_cons.1 h with rfl | h
        · exact List.not_mem_nil
        · exact ih h
      · simp only [segments, if_neg hc] at h
        split at h
        · obtain rfl : name = [c] := by simpa using h
          simpa using fun heq => hc heq.symm
        · next first more hrest =>
            rw [hrest] at ih
            rcases List.mem_cons.1 h with rfl | h
            · have hfirst := ih List.mem_cons_self
              intro hslash
              rcases List.mem_cons.1 hslash with heq | hslash
              · exact hc heq.symm
              · exact hfirst hslash
            · exact ih (List.mem_cons_of_mem _ h)

theorem segments_append_slash {name : List Char} (h : '/' ∉ name) (rest : List Char) :
    segments (name ++ '/' :: rest) = name :: segments rest := by
  induction name with
  | nil => simp [segments]
  | cons c name ih =>
      have hc : c ≠ '/' := fun heq => h (by simp [heq])
      simp [segments, hc, ih fun hmem => h (List.mem_cons_of_mem _ hmem)]

theorem segments_of_not_mem {name : List Char} (h : '/' ∉ name) : segments name = [name] := by
  induction name with
  | nil => rfl
  | cons c name ih =>
      have hc : c ≠ '/' := fun heq => h (by simp [heq])
      simp [segments, hc, ih fun hmem => h (List.mem_cons_of_mem _ hmem)]

theorem segments_tail_spell {list : List (List Char)} (hne : list ≠ [])
    (hnames : ∀ name ∈ list, '/' ∉ name) : segments (spell list).tail = list := by
  induction list with
  | nil => exact absurd rfl hne
  | cons name more ih =>
      have hname := hnames name List.mem_cons_self
      cases more with
      | nil => simpa using segments_of_not_mem hname
      | cons next more =>
          have htail := ih (List.cons_ne_nil _ _) fun n hn => hnames n (List.mem_cons_of_mem _ hn)
          simp only [spell_cons, List.tail_cons] at htail ⊢
          rw [segments_append_slash hname, htail]

/-- A path has one spelling. -/
theorem spell_injective {first second : List (List Char)} (hfirst : ∀ name ∈ first, '/' ∉ name)
    (hsecond : ∀ name ∈ second, '/' ∉ name) (h : spell first = spell second) : first = second := by
  cases first with
  | nil =>
      cases second with
      | nil => rfl
      | cons name more => cases h
  | cons name more =>
      cases second with
      | nil => cases h
      | cons name' more' =>
          rw [← segments_tail_spell (List.cons_ne_nil name more) hfirst, h]
          exact segments_tail_spell (List.cons_ne_nil name' more') hsecond

/-- Where a spelled path is cut at a slash, it is cut between two names. -/
theorem spell_eq_append {list : List (List Char)} {above rest : List Char}
    (hnames : ∀ name ∈ list, '/' ∉ name) (h : spell list = above ++ '/' :: rest) :
    ∃ front back, list = front ++ back ∧ spell front = above ∧ spell back = '/' :: rest := by
  induction list generalizing above with
  | nil => simp at h
  | cons name more ih =>
      cases above with
      | nil => exact ⟨[], name :: more, rfl, rfl, h⟩
      | cons c above =>
          rw [spell_cons, List.cons_append] at h
          obtain ⟨rfl, hcut⟩ := List.cons.inj h
          have hmore : ∀ n ∈ more, '/' ∉ n := fun n hn => hnames n (List.mem_cons_of_mem _ hn)
          rcases List.append_eq_append_iff.1 hcut with ⟨text, rfl, htext⟩ | ⟨text, hname, htext⟩
          · -- the cut is behind the first name
            rcases ih hmore htext with ⟨front, back, rfl, rfl, hback⟩
            exact ⟨name :: front, back, rfl, rfl, hback⟩
          · cases text with
            | nil =>
                refine ⟨[name], more, rfl, ?_, ?_⟩
                · simp [hname]
                · simpa using htext.symm
            | cons d text =>
                rw [List.cons_append] at htext
                obtain ⟨rfl, -⟩ := List.cons.inj htext
                have hslash : '/' ∈ name := by simp [hname]
                exact absurd hslash (hnames name List.mem_cons_self)

/-! ## Well-formed paths -/

theorem names_of_spell {path : String} {list : List (List Char)} (hne : list ≠ [])
    (hnames : ∀ name ∈ list, IsName name) (hpath : path.toList = spell list) :
    names path = list := by
  have hslashes : ∀ name ∈ list, '/' ∉ name := fun name hname => (hnames name hname).2
  have hroot : path ≠ root := by
    rintro rfl
    have hlist : list = [[]] := by
      rw [← segments_tail_spell hne hslashes, ← hpath]
      rfl
    exact (hnames [] (by simp [hlist])).1 rfl
  simp only [names, if_neg hroot, hpath]
  exact segments_tail_spell hne hslashes

/-- An entry may stand at the paths that are spelled by one name or more. -/
theorem isEntryPath_iff {path : String} :
    Store.isEntryPath path = true ↔
      ∃ list, list ≠ [] ∧ (∀ name ∈ list, IsName name) ∧ path.toList = spell list := by
  constructor
  · intro h
    unfold Store.isEntryPath isValid at h
    simp only [Bool.and_eq_true, Bool.or_eq_true, beq_iff_eq, bne_iff_ne] at h
    rcases h with ⟨hvalid, hroot⟩
    have hsegments := hvalid.resolve_left hroot
    split at hsegments
    · next rest hrest =>
        refine ⟨segments rest, ?_, ?_, ?_⟩
        · intro hnil
          have hspell := spell_segments rest
          rw [hnil] at hspell
          cases hspell
        · intro name hname
          have hne := List.all_eq_true.1 hsegments name hname
          exact ⟨by simpa using hne, not_mem_of_mem_segments hname⟩
        · rw [hrest, spell_segments]
    · cases hsegments
  · rintro ⟨list, hne, hnames, hpath⟩
    have hsegments : segments (spell list).tail = list :=
      segments_tail_spell hne fun name hname => (hnames name hname).2
    have hslash : ∃ rest, spell list = '/' :: rest := by
      cases list with
      | nil => exact absurd rfl hne
      | cons name more => exact ⟨_, rfl⟩
    rcases hslash with ⟨rest, hrest⟩
    rw [hrest, List.tail_cons] at hsegments
    have hall : ∀ name ∈ segments rest, name ≠ [] := by
      rw [hsegments]
      exact fun name hname => (hnames name hname).1
    have hroot : path ≠ root := by
      rintro rfl
      have hrest' : rest = [] := (List.cons.inj (hrest.symm.trans hpath.symm)).2
      rw [hrest'] at hsegments
      exact (hnames [] (by simp [← hsegments, segments])).1 rfl
    unfold Store.isEntryPath isValid
    simpa [hpath, hrest, hroot] using hall

theorem isValid_of_isEntryPath {path : String} (hpath : Store.isEntryPath path = true) :
    isValid path = true :=
  (Bool.and_eq_true_iff.1 hpath).1

theorem ne_root_of_isEntryPath {path : String} (hpath : Store.isEntryPath path = true) :
    path ≠ root :=
  bne_iff_ne.1 (Bool.and_eq_true_iff.1 hpath).2

theorem ne_empty_of_isEntryPath {path : String} (hpath : Store.isEntryPath path = true) :
    path ≠ "" := by
  rintro rfl
  cases hpath

theorem isName_of_mem_names {path : String} (hpath : Store.isEntryPath path = true)
    {name : List Char} (hname : name ∈ names path) : IsName name := by
  rcases isEntryPath_iff.1 hpath with ⟨list, hne, hnames, hspell⟩
  rw [names_of_spell hne hnames hspell] at hname
  exact hnames name hname

theorem spell_names {path : String} (hpath : Store.isEntryPath path = true) :
    spell (names path) = path.toList := by
  rcases isEntryPath_iff.1 hpath with ⟨list, hne, hnames, hspell⟩
  rw [names_of_spell hne hnames hspell, hspell]

theorem names_ne_nil {path : String} (hpath : Store.isEntryPath path = true) :
    names path ≠ [] := by
  rcases isEntryPath_iff.1 hpath with ⟨list, hne, hnames, hspell⟩
  rw [names_of_spell hne hnames hspell]
  exact hne

/-- The names of a path determine it. -/
theorem names_injective {first second : String} (hfirst : Store.isEntryPath first = true)
    (hsecond : Store.isEntryPath second = true) (h : names first = names second) :
    first = second := by
  rw [← String.toList_inj, ← spell_names hfirst, h, spell_names hsecond]

/-- The paths above a well-formed path are spelled by its leading names. -/
theorem isAbove_iff_names {above path : String} (hpath : Store.isEntryPath path = true) :
    IsAbove above path ↔ Store.isEntryPath above = true ∧
      names above <+: names path ∧ names above ≠ names path := by
  constructor
  · rintro ⟨hne, rest, hrest⟩
    have hnames := fun name (hname : name ∈ names path) => isName_of_mem_names hpath hname
    rw [← spell_names hpath] at hrest
    rcases spell_eq_append (fun name hname => (hnames name hname).2) hrest with
      ⟨front, back, hlist, hfront, hback⟩
    have hfrontNe : front ≠ [] := by
      rintro rfl
      exact hne (String.toList_inj.1 hfront.symm)
    have hfrontNames : ∀ name ∈ front, IsName name := fun name hname =>
      hnames name (by simp [hlist, hname])
    rw [names_of_spell hfrontNe hfrontNames hfront.symm, hlist]
    refine ⟨isEntryPath_iff.2 ⟨front, hfrontNe, hfrontNames, hfront.symm⟩,
      List.prefix_append _ _, ?_⟩
    -- the path below has a name more, since it goes on with a slash
    intro heq
    have hnil : back = [] := List.self_eq_append_right.1 heq
    rw [hnil] at hback
    cases hback
  · rintro ⟨habove, ⟨back, hback⟩, hne⟩
    refine ⟨?_, ?_⟩
    · rintro rfl
      have hspell := spell_names habove
      cases hnames : names "" with
      | nil => exact names_ne_nil habove hnames
      | cons name more =>
          rw [hnames] at hspell
          cases hspell
    · cases back with
      | nil => exact absurd (by simpa using hback) hne
      | cons name more =>
          refine ⟨name ++ spell more, ?_⟩
          rw [← spell_names hpath, ← hback, spell_append, spell_names habove, spell_cons]

/-- An entry may stand behind an entry and a slash, under any name. -/
theorem isEntryPath_child {parent path : String} {name : List Char}
    (hparent : Store.isEntryPath parent = true) (hname : IsName name)
    (hpath : path.toList = parent.toList ++ '/' :: name) : Store.isEntryPath path = true := by
  refine isEntryPath_iff.2 ⟨names parent ++ [name], by simp, ?_, ?_⟩
  · intro n hn
    rcases List.mem_append.1 hn with hn | hn
    · exact isName_of_mem_names hparent hn
    · rw [List.mem_singleton.1 hn]
      exact hname
  · rw [hpath, ← spell_names hparent]
    simp

/-- A child of a path has one name more. -/
theorem isChild_iff {parent path : String} (hparent : isValid parent = true)
    (hpath : Store.isEntryPath path = true) :
    Store.isChild parent path = true ↔ ∃ name, names path = names parent ++ [name] := by
  have hstem : Store.stemBelow parent = spell (names parent) ++ ['/'] := by
    unfold Store.stemBelow
    by_cases hroot : parent = root
    · simp [hroot, names]
    · have hentry : Store.isEntryPath parent = true := by simp [Store.isEntryPath, hparent, hroot]
      simp only [if_neg hroot, spell_names hentry]
  have hslashes : ∀ name ∈ names path, '/' ∉ name := fun name hname =>
    (isName_of_mem_names hpath hname).2
  have hparentSlashes : ∀ name ∈ names parent, '/' ∉ name := by
    by_cases hroot : parent = root
    · simp [hroot, names]
    · have hentry : Store.isEntryPath parent = true := by simp [Store.isEntryPath, hparent, hroot]
      exact fun name hname => (isName_of_mem_names hentry hname).2
  unfold Store.isChild Store.isBelow
  simp only [hstem, Bool.and_eq_true, Bool.not_eq_true', List.isPrefixOf_iff_prefix]
  constructor
  · rintro ⟨⟨rest, hrest⟩, hlast⟩
    have hcut : path.toList = spell (names parent) ++ '/' :: rest := by simp [← hrest]
    have hnoSlash : '/' ∉ rest := by
      rw [← hrest, List.drop_left] at hlast
      simpa using hlast
    rw [← spell_names hpath] at hcut
    rcases spell_eq_append hslashes hcut with ⟨front, back, hlist, hfront, hback⟩
    have hfrontEq : front = names parent :=
      spell_injective (fun name hname => hslashes name (by simp [hlist, hname])) hparentSlashes
        hfront
    have hbackEq : back = [rest] :=
      spell_injective (fun name hname => hslashes name (by simp [hlist, hname]))
        (by simpa using hnoSlash) (by simpa using hback)
    exact ⟨rest, by rw [hlist, hfrontEq, hbackEq]⟩
  · rintro ⟨name, hname⟩
    have hchars : path.toList = spell (names parent) ++ ['/'] ++ name := by
      rw [← spell_names hpath, hname]
      simp
    rw [hchars]
    refine ⟨List.prefix_append _ _, ?_⟩
    rw [List.drop_left]
    have hnoSlash := hslashes name (by simp [hname])
    simpa using hnoSlash

end Path

end FencedPool
