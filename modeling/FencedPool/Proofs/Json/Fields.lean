import FencedPool.Proofs.Json.Reading

/-!
# Fields — which texts are read as the values of fields

A field of a known type is read from the texts of its type and from no others: a string from a
string, an optional one also from `null`, a list from an array of strings, and a name from a string
or from the only key of an object with the value `null`.

This file defines `Json.Field.IsText`, `Json.Field.IsOptional`, `Json.Field.IsTexts` and
`Json.Field.IsChoice` — the texts of these types.

The main statements are `Json.Field.exact_text`, `Json.Field.exact_optional`,
`Json.Field.exact_texts` and `Json.Field.exact_choice`.
-/

namespace FencedPool

namespace Json

open Numeral (Stops)

/-- The word `null`. -/
def nullText : List Symbol := some 'n' :: ['u', 'l', 'l'].map some

namespace Field

/-- Whether a text is a string with these characters. -/
def IsText (t : List Symbol) (text : String) : Prop :=
  ∃ q, Text.Spells text.toList q ∧ t = some '"' :: q

/-- Whether a text is one of another type, or `null`. -/
def IsOptional {α : Type} (T : List Symbol → α → Prop) (t : List Symbol) : Option α → Prop
  | none => t = nullText
  | some a => T t a

/-- Whether a text is an array of strings. -/
def IsTexts (t : List Symbol) (texts : List String) : Prop :=
  ∃ s ts, ItemTexts true ts s ∧ List.Forall₂ IsText ts texts ∧ t = some '[' :: s

/-- Whether a text is the only key of an object whose value is `null`. -/
def IsTagged (t : List Symbol) (name : String) : Prop :=
  ∃ s, MemberTexts IsKey true [(name, nullText)] s ∧ t = some '\x7b' :: s

/-- Whether a text names one of several things. -/
def IsChoice {α : Type} (named? : String → Option α) (t : List Symbol) (a : α) : Prop :=
  ∃ name, named? name = some a ∧ (IsText t name ∨ IsTagged t name)

variable {α : Type} {s rest b t : List Symbol}

/-! ## Strings -/

theorem IsText.starts {text : String} (h : IsText t text) : Starts t := by
  rcases h with ⟨q, -, rfl⟩
  exact starts_cons (by decide) (by decide) (by decide) _

theorem exact_text : Exact text IsText where
  starts := IsText.starts
  sound := by
    intro s rest a h
    unfold text at h
    split at h
    · cases h
    · next hspace =>
        rcases exists_skipSpace hspace with ⟨b, hb, rfl⟩
        rcases Text.read_eq_ok_iff.1 h with ⟨q, rfl, hq⟩
        exact ⟨b, some '"' :: q, hb, ⟨q, hq, rfl⟩, rfl⟩
    · cases h
  complete := by
    rintro t b rest a ⟨q, hq, rfl⟩ hb -
    unfold text
    rw [skipSpace_append hb, List.cons_append, skipSpace_of_not_isSpace (by decide)]
    exact Text.read_append hq rest

theorem starts_null : Starts nullText := starts_cons (by decide) (by decide) (by decide) _

/-- A value may be `null` where its own texts do not begin like it. -/
theorem exact_optional {read : Reader α} {T : List Symbol → α → Prop} (h : Exact read T)
    (hn : ∀ {a more}, ¬ T (some 'n' :: more) a) : Exact (optional read) (IsOptional T) where
  starts := by
    rintro t (_ | a) ht
    · obtain rfl : t = nullText := ht
      exact starts_null
    · exact h.starts ht
  sound := by
    intro s rest a? hread
    unfold optional at hread
    split at hread
    · next hspace =>
        rcases exists_skipSpace hspace with ⟨b, hb, rfl⟩
        rcases map_eq_ok_iff.1 hread with ⟨_, hword, heq⟩
        cases heq
        obtain rfl := eq_of_word hword
        exact ⟨b, nullText, hb, rfl, rfl⟩
    · rcases map_eq_ok_iff.1 hread with ⟨⟨a, after⟩, ha, heq⟩
      cases heq
      rcases exists_blank s with ⟨b, hb, hs⟩
      rcases h.sound ha with ⟨b', t, hb', ht, hskip⟩
      exact ⟨b ++ b', t, hb.append hb', ht, by rw [hs, hskip]; simp⟩
  complete := by
    rintro t b rest (_ | a) ht hb hrest
    · obtain rfl : t = nullText := ht
      unfold optional
      rw [skipSpace_append hb, starts_null.skipSpace]
      exact congrArg (Except.map _) (word_append ['u', 'l', 'l'] rest)
    · have htaken := h.complete ht blank_nil hrest
      rw [List.nil_append] at htaken
      unfold optional
      rw [skipSpace_append hb, (h.starts ht).skipSpace]
      split
      · next heq =>
          rcases h.starts ht with ⟨x, more, rfl, -⟩
          cases heq
          exact absurd ht hn
      · rw [htaken]
        rfl

theorem isText_null {a : String} {more : List Symbol} : ¬ IsText (some 'n' :: more) a := by
  rintro ⟨q, -, heq⟩
  cases heq

/-! ## Lists -/

theorem exact_texts : Exact texts IsTexts where
  starts := by
    rintro t a ⟨s, ts, -, -, rfl⟩
    exact starts_cons (by decide) (by decide) (by decide) _
  sound := by
    intro s rest list h
    unfold texts at h
    split at h
    · cases h
    · next hspace =>
        rcases exists_skipSpace hspace with ⟨b, hb, rfl⟩
        rcases map_eq_ok_iff.1 h with ⟨⟨acc, after⟩, hitems, heq⟩
        cases heq
        rcases (items_eq_ok_iff exact_text).1 hitems with ⟨t, ts, hts, htexts, rfl⟩
        exact ⟨b, some '[' :: t, hb, ⟨t, ts, hts, htexts, rfl⟩, rfl⟩
    · cases h
  complete := by
    rintro t b rest list ⟨s, ts, hts, htexts, rfl⟩ hb -
    have hitems : items (gather text) [] (s ++ rest) = .ok (list.reverse, rest) :=
      (items_eq_ok_iff exact_text).2 ⟨s, ts, hts, by rwa [List.reverse_reverse], rfl⟩
    unfold texts
    rw [skipSpace_append hb, List.cons_append, skipSpace_of_not_isSpace (by decide)]
    change (items (gather text) [] (s ++ rest)).map _ = _
    rw [hitems, Except.map, List.reverse_reverse]

/-! ## Names -/

theorem closingNull_append {c : List Symbol} (hb : Blank b) (hc : Blank c) (rest : List Symbol) :
    closingNull (b ++ (nullText ++ (c ++ some '\x7d' :: rest))) = .ok rest := by
  have hword := word_append ['u', 'l', 'l'] (c ++ some '\x7d' :: rest)
  have htext : nullText ++ (c ++ some '\x7d' :: rest) =
      some 'n' :: (['u', 'l', 'l'].map some ++ (c ++ some '\x7d' :: rest)) := rfl
  unfold closingNull
  rw [skipSpace_append hb, starts_null.skipSpace, htext]
  simp only [hword]
  rw [skipSpace_append hc, skipSpace_of_not_isSpace (by decide)]
  rfl

theorem exists_closingNull (h : closingNull s = .ok rest) :
    ∃ b c, Blank b ∧ Blank c ∧ s = b ++ (nullText ++ (c ++ some '\x7d' :: rest)) := by
  unfold closingNull at h
  split at h
  · cases h
  · next hspace =>
      split at h
      · cases h
      · next hword =>
          split at h
          · next hclose =>
              cases h
              rcases exists_skipSpace hspace with ⟨b, hb, rfl⟩
              rcases exists_skipSpace hclose with ⟨c, hc, rfl⟩
              obtain rfl := eq_of_word hword
              exact ⟨b, c, hb, hc, rfl⟩
          · cases h
          · cases h
  · cases h

/-- The steps in which the only key of an object is read, from behind its opening brace. -/
structure ReadsTag (s : List Symbol) (name : String) (rest : List Symbol) : Prop where
  exists_steps : ∃ key after value, nextKey true s = .ok (.item key) ∧
    Text.read key = .ok (name, after) ∧ colon after = .ok value ∧ closingNull value = .ok rest

theorem readsTag_iff {name : String} :
    ReadsTag s name rest ↔ ∃ t, MemberTexts IsKey true [(name, nullText)] t ∧ s = t ++ rest := by
  constructor
  · rintro ⟨key, after, value, hkey, hname, hcolon, hnull⟩
    rcases exists_lead_key hkey with ⟨l, hl, rfl⟩
    rcases Text.read_eq_ok_iff.1 hname with ⟨q, rfl, hq⟩
    rcases exists_colon hcolon with ⟨c, hc, rfl⟩
    rcases exists_closingNull hnull with ⟨b, d, hb, hd, rfl⟩
    exact ⟨_, .member hl hq hc hb starts_null (.close hd), by simp⟩
  · rintro ⟨t, ht, rfl⟩
    cases ht with
    | @member _ _ l q c b _ _ _ hl hq hc hb _ more =>
        cases more with
        | @close _ d hd =>
            have htext : l ++ some '"' :: (q ++ (c ++ some ':' ::
                (b ++ (nullText ++ (d ++ [some '\x7d']))))) ++ rest =
                l ++ some '"' :: (q ++ (c ++ some ':' ::
                  (b ++ (nullText ++ (d ++ some '\x7d' :: rest))))) := by simp
            rw [htext]
            exact ⟨_, _, _, nextKey_key hl _, Text.read_append hq _, colon_append hc _,
              closingNull_append hb hd _⟩

variable {known : List String} {named? : String → Option α}

theorem exists_choice {a : α} (h : choice known named? s = .ok (a, rest)) :
    ∃ b, Blank b ∧ ((∃ more name, s = b ++ some '"' :: more ∧ named? name = some a ∧
        Text.read more = .ok (name, rest)) ∨
      ∃ more name, s = b ++ some '\x7b' :: more ∧ named? name = some a ∧
        ReadsTag more name rest) := by
  unfold choice at h
  dsimp only at h
  split at h
  · cases h
  · next hspace =>
      rcases exists_skipSpace hspace with ⟨b, hb, hs⟩
      rcases bind_eq_ok_iff.1 h with ⟨⟨name, after⟩, hread, hpick⟩
      rcases bind_eq_ok_iff.1 hpick with ⟨a', hname, heq⟩
      cases heq
      split at hname
      · next hknown =>
          cases hname
          exact ⟨b, hb, .inl ⟨_, name, hs, hknown, hread⟩⟩
      · cases hname
  · next hspace =>
      rcases exists_skipSpace hspace with ⟨b, hb, hs⟩
      split at h
      · cases h
      · cases h
      · next hnext =>
          rcases bind_eq_ok_iff.1 h with ⟨⟨name, after⟩, hread, hpick⟩
          rcases bind_eq_ok_iff.1 hpick with ⟨a', hname, hcolon⟩
          rcases bind_eq_ok_iff.1 hcolon with ⟨value, hvalue, hnull⟩
          rcases bind_eq_ok_iff.1 hnull with ⟨last, hlast, heq⟩
          cases heq
          split at hname
          · next hknown =>
              cases hname
              exact ⟨b, hb, .inr ⟨_, name, hs, hknown, ⟨_, _, _, hnext, hread, hvalue, hlast⟩⟩⟩
          · cases hname
  · cases h

theorem exact_choice : Exact (choice known named?) (IsChoice named?) where
  starts := by
    rintro t a ⟨name, -, htext | ⟨s, -, rfl⟩⟩
    · exact htext.starts
    · exact starts_cons (by decide) (by decide) (by decide) _
  sound := by
    intro s rest a h
    rcases exists_choice h with
      ⟨b, hb, ⟨more, name, rfl, hname, hread⟩ | ⟨more, name, rfl, hname, htag⟩⟩
    · rcases Text.read_eq_ok_iff.1 hread with ⟨q, rfl, hq⟩
      exact ⟨b, some '"' :: q, hb, ⟨name, hname, .inl ⟨q, hq, rfl⟩⟩, rfl⟩
    · rcases readsTag_iff.1 htag with ⟨t, ht, rfl⟩
      exact ⟨b, some '\x7b' :: t, hb, ⟨name, hname, .inr ⟨t, ht, rfl⟩⟩, rfl⟩
  complete := by
    rintro t b rest a ⟨name, hname, ⟨q, hq, rfl⟩ | ⟨s, hs, rfl⟩⟩ hb -
    · have hread := Text.read_append hq rest
      unfold choice
      rw [skipSpace_append hb, List.cons_append, skipSpace_of_not_isSpace (by decide)]
      simp only [hread, hname, bind, Except.bind]
    · have htag : ReadsTag (s ++ rest) name rest := readsTag_iff.2 ⟨s, hs, rfl⟩
      rcases htag with ⟨key, after, value, hkey, hread, hcolon, hnull⟩
      unfold choice
      rw [skipSpace_append hb, List.cons_append, skipSpace_of_not_isSpace (by decide)]
      simp only [hkey, hread, hname, hcolon, hnull, bind, Except.bind]

/-! ## Records written as arrays -/

section Arrays

variable {read : Reader α} {T : List Symbol → α → Prop} {first : Bool} {l last : List Symbol}

theorem exists_item? (h : Exact read T) {a? : Option α}
    (hitem : item? first read s = .ok (a?, rest)) :
    (∃ l t a, Lead first l ∧ T t a ∧ a? = some a ∧ s = l ++ (t ++ rest)) ∨
      a? = none ∧ rest = s ∧ ∃ b last, Blank b ∧ s = b ++ some ']' :: last := by
  unfold item? at hitem
  split at hitem
  · cases hitem
  · next hnext =>
      cases hitem
      rcases exists_close_item hnext with ⟨b, hb, hs⟩
      exact .inr ⟨rfl, rfl, b, _, hb, hs⟩
  · next hnext =>
      rcases map_eq_ok_iff.1 hitem with ⟨⟨a, after⟩, hread, heq⟩
      cases heq
      rcases exists_lead_item hnext with ⟨l, hl, rfl⟩
      rcases h.sound hread with ⟨b, t, hb, ht, rfl⟩
      exact .inl ⟨l ++ b, t, a, hl.append hb, ht, rfl, by simp⟩

theorem item?_append (h : Exact read T) {a : α} (hl : Lead first l) (ht : T t a)
    (hrest : Stops rest) : item? first read (l ++ (t ++ rest)) = .ok (some a, rest) := by
  have hread := h.complete ht blank_nil hrest
  rw [List.nil_append] at hread
  unfold item?
  rw [nextItem_item hl (h.starts ht)]
  dsimp only
  rw [hread]
  rfl

theorem item?_close (read : Reader α) (hb : Blank b) (last : List Symbol) :
    item? first read (b ++ some ']' :: last) = .ok (none, b ++ some ']' :: last) := by
  unfold item?
  rw [nextItem_close hb]

variable {index : Nat} {wanted : String}

theorem exists_item (h : Exact read T) {a : α} (hitem : item index wanted read s = .ok (a, rest)) :
    ∃ l t, Lead (index == 0) l ∧ T t a ∧ s = l ++ (t ++ rest) := by
  unfold item at hitem
  split at hitem
  · cases hitem
  · next hsome =>
      cases hitem
      rcases exists_item? h hsome with ⟨l, t, _, hl, ht, ⟨⟩, hs⟩ | ⟨⟨⟩, -⟩
      exact ⟨l, t, hl, ht, hs⟩
  · cases hitem

theorem item_append (h : Exact read T) {a : α} (hl : Lead (index == 0) l) (ht : T t a)
    (hrest : Stops rest) : item index wanted read (l ++ (t ++ rest)) = .ok (a, rest) := by
  unfold item
  rw [item?_append h hl ht hrest]

theorem closeArray_close (hb : Blank b) (last : List Symbol) :
    closeArray (b ++ some ']' :: last) = .ok last := by
  unfold closeArray
  rw [skipSpace_append hb, skipSpace_of_not_isSpace (by decide)]
  rfl

theorem exists_closeArray (h : closeArray s = .ok last) :
    ∃ b, Blank b ∧ s = b ++ some ']' :: last := by
  unfold closeArray at h
  split at h
  · cases h
  · next hspace =>
      cases h
      exact exists_skipSpace hspace
  · split at h <;> cases h
  · cases h

end Arrays

/-! ## Without a schema -/

variable {depth : Nat}

theorem isRead_null (depth : Nat) : IsRead depth nullText .null := by
  refine isRead_of_form (.scalar .null) fun rest _ => ?_
  rw [nullText, readValue]
  exact congrArg (Except.map _) (word_append ['u', 'l', 'l'] rest)

theorem IsText.isRead {text : String} (h : IsText t text) (depth : Nat) :
    IsRead depth t (.str text) := by
  rcases h with ⟨q, hq, rfl⟩
  refine isRead_of_form (.scalar (.str hq.quoted)) fun rest _ => ?_
  rw [List.cons_append, readValue]
  exact congrArg (Except.map _) (Text.read_append hq rest)

theorem IsOptional.exists_isRead {text : Option String} (h : IsOptional IsText t text)
    (depth : Nat) : ∃ v, IsRead depth t v := by
  cases text with
  | none =>
      obtain rfl : t = nullText := h
      exact ⟨.null, isRead_null depth⟩
  | some text => exact ⟨.str text, IsText.isRead h depth⟩

theorem IsTexts.exists_isRead {texts : List String} (h : IsTexts t texts) (depth : Nat) :
    ∃ v, IsRead (depth + 1) t v := by
  rcases h with ⟨s, ts, hts, htexts, rfl⟩
  have hvalues : List.Forall₂ (IsRead depth) ts (texts.map .str) :=
    List.forall₂_map_right_iff.2 (htexts.imp fun _ _ h => h.isRead depth)
  have hforms := forall_mem_of_forall₂ (P := Form) (fun h => h.2) hvalues
  refine ⟨.arr (texts.map .str), isRead_of_form (.list hts hforms) fun rest _ => ?_⟩
  have hitems : items (gather (readValue depth)) [] (s ++ rest) =
      .ok ((texts.map .str).reverse, rest) :=
    (items_eq_ok_iff (exact_readValue depth)).2 ⟨s, ts, hts, by rwa [List.reverse_reverse], rfl⟩
  rw [List.cons_append, readValue_list, ← gather_readValue, hitems, Except.map,
    List.reverse_reverse]

theorem IsTagged.exists_isRead {name : String} (h : IsTagged t name) (depth : Nat) :
    ∃ v, IsRead (depth + 1) t v := by
  rcases h with ⟨s, hs, rfl⟩
  have hnull : ∀ m ∈ [(name, nullText)], ∃ v, IsRead depth m.2 v :=
    List.forall_mem_singleton.2 ⟨.null, isRead_null depth⟩
  rcases exists_gathers hnull [] with ⟨last, hlast⟩
  rcases hs.loose (List.forall_mem_singleton.2 (.scalar .null)) with ⟨ms, hms, hforms⟩
  refine ⟨.obj last, isRead_of_form (.object hms hforms) fun rest _ => ?_⟩
  have hmembers : members (memberWithin depth) [] (s ++ rest) = .ok (last, rest) :=
    (members_eq_ok_iff (exactMember_within (exact_readValue depth))).2 ⟨s, _, hs, hlast, rfl⟩
  rw [List.cons_append, readValue_object, hmembers]
  rfl

theorem IsChoice.exists_isRead {a : α} (h : IsChoice named? t a) (depth : Nat) :
    ∃ v, IsRead (depth + 1) t v := by
  rcases h with ⟨name, -, htext | htag⟩
  · exact ⟨.str name, htext.isRead _⟩
  · exact htag.exists_isRead depth

end Field

end Json

end FencedPool
