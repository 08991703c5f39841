import FencedPool.Proofs.Json.Skipping
import FencedPool.Proofs.Json.Values

/-!
# Reading — a value is read from its own text

What a value is read as depends on its own symbols and not on those behind it, so an array or an
object is read exactly when each of its values is read by itself.  Whatever is read as a value also
has the form of one, and this form tells where a value ends: the members of an object are determined
by its text.

This file defines `Json.Takes` — that a reader takes a text as a value.

The main statements are `Json.exact_readValue`, `Json.MemberTexts.unique` and
`Json.parse_object_iff`.
-/

namespace FencedPool

namespace Json

open Numeral (Stops Written)

variable {α : Type} {read : Reader α} {s rest b t : List Symbol} {depth : Nat} {v : Json}

/-- Whether a reader takes a text as a value, behind blanks and where no number goes on. -/
structure Takes (read : Reader α) (t : List Symbol) (a : α) : Prop where
  starts : Starts t
  taken {b rest : List Symbol} : Blank b → Stops rest → read (b ++ (t ++ rest)) = .ok (a, rest)

theorem Takes.alone {a : α} (h : Takes read t a) : read t = .ok (a, []) := by
  have htaken : read ([] ++ (t ++ [])) = .ok (a, []) := h.taken blank_nil nofun
  rwa [List.nil_append, List.append_nil] at htaken

theorem Starts.eq_of_append {t' : List Symbol} (ht : Starts t) (ht' : Starts t')
    (hb : Blank b) (h : t ++ s = b ++ (t' ++ rest)) : b = [] := by
  have hskip := ht.skipSpace s
  rw [h, skipSpace_append hb, ht'.skipSpace] at hskip
  exact List.self_eq_append_left.1 hskip

/-- A text is taken as the value that it alone is read as. -/
theorem Exact.takes {T : List Symbol → α → Prop} (h : Exact read T) {a : α} (ht : Starts t)
    (hread : read t = .ok (a, [])) : T t a := by
  rcases h.sound hread with ⟨b, t', hb, hT, heq⟩
  have hnil : b = [] := Starts.eq_of_append ht (h.starts hT) hb (by rw [List.append_nil, heq])
  rw [hnil, List.nil_append, List.append_nil] at heq
  rwa [heq]

/-! ## Members -/

/-- The members of an object are read exactly when their values are. -/
theorem Exact.member {T : List Symbol → α → Prop} (h : Exact read T) {σ : Type}
    {member : σ → String → Reader σ} {f : σ → String → α → σ}
    (hmember : ∀ acc key s, member acc key s =
      match colon s with
      | .error e => .error e
      | .ok s' => (read s').map fun r => (f acc key r.1, r.2)) :
    ExactMember member fun acc key t next => ∃ a, T t a ∧ next = f acc key a where
  sound := by
    intro acc next key s rest hnext
    rw [hmember] at hnext
    split at hnext
    · cases hnext
    · next hcolon =>
        rcases map_eq_ok_iff.1 hnext with ⟨⟨a, after⟩, ha, heq⟩
        cases heq
        rcases exists_colon hcolon with ⟨c, hc, rfl⟩
        rcases h.sound ha with ⟨b, t, hb, ht, rfl⟩
        exact ⟨c, b, t, hc, hb, h.starts ht, ⟨a, ht, rfl⟩, rfl⟩
  complete := by
    rintro acc next key t c b rest ⟨a, ht, rfl⟩ hc hb hrest
    rw [hmember, colon_append hc]
    dsimp only
    rw [h.complete ht hb hrest]
    rfl

theorem MemberTexts.loose {first : Bool} {ms : List (String × List Symbol)}
    (h : MemberTexts IsKey first ms s) (hms : ∀ m ∈ ms, Form m.2) :
    ∃ ms', MemberTexts LooseKey first ms' s ∧ ∀ m ∈ ms', Form m.2 := by
  induction h with
  | close blank => exact ⟨[], .close blank, nofun⟩
  | @member first k l q c b t s ms lead key behind before starts _ ih =>
      rcases List.forall_mem_cons.1 hms with ⟨ht, hms⟩
      rcases ih hms with ⟨ms', hms', hforms⟩
      exact ⟨(q, t) :: ms', .member lead ⟨rfl, key.quoted⟩ behind before starts hms',
        List.forall_mem_cons.2 ⟨ht, hforms⟩⟩

theorem MemberTexts.starts {κ : Type} {Key : κ → List Symbol → Prop} {first : Bool}
    {ms : List (κ × List Symbol)} (h : MemberTexts Key first ms s) : ∀ m ∈ ms, Starts m.2 := by
  induction h with
  | close _ => exact nofun
  | member _ _ _ _ starts _ ih => exact List.forall_mem_cons.2 ⟨starts, ih⟩

theorem forall_mem_of_forall₂ {R : List Symbol → α → Prop} {P : List Symbol → Prop}
    (hR : ∀ {t a}, R t a → P t) {ts : List (List Symbol)} {values : List α}
    (h : List.Forall₂ R ts values) : ∀ t ∈ ts, P t := by
  induction h with
  | nil => exact nofun
  | cons head _ ih => exact List.forall_mem_cons.2 ⟨hR head, ih⟩

/-! ## Values -/

theorem readValue_blank (hb : Blank b) (s : List Symbol) :
    readValue depth (b ++ s) = readValue depth s := by
  rw [readValue, readValue, skipSpace_append hb]

/-- What is read as a value is read from its own text, which has the form of one. -/
def IsRead (depth : Nat) (t : List Symbol) (v : Json) : Prop :=
  Takes (readValue depth) t v ∧ Form t

theorem isRead_of_form (ht : Form t)
    (h : ∀ rest, Stops rest → readValue depth (t ++ rest) = .ok (v, rest)) : IsRead depth t v :=
  ⟨⟨ht.starts, fun hb hrest => by rw [readValue_blank hb, h _ hrest]⟩, ht⟩

theorem gather_readValue : gather (readValue depth) = itemWithin depth := rfl

theorem exactMember_within (h : Exact (readValue depth) (IsRead depth)) :
    ExactMember (memberWithin depth) fun acc key t next =>
      ∃ v, IsRead depth t v ∧ next = Entries.insert key v acc :=
  h.member fun _ _ _ => rfl

/-- What is gathered from members that are read without a schema. -/
abbrev GathersWithin (depth : Nat) : List (String × Json) → List (String × List Symbol) →
    List (String × Json) → Prop :=
  Gathers fun acc key t next => ∃ v, IsRead depth t v ∧ next = Entries.insert key v acc

theorem GathersWithin.forall_isRead {acc last : List (String × Json)}
    {ms : List (String × List Symbol)} (h : GathersWithin depth acc ms last) :
    ∀ m ∈ ms, ∃ v, IsRead depth m.2 v := by
  induction h with
  | nil _ => exact nofun
  | cons head _ ih =>
      rcases head with ⟨v, hv, -⟩
      exact List.forall_mem_cons.2 ⟨⟨v, hv⟩, ih⟩

theorem GathersWithin.forall_form {acc last : List (String × Json)}
    {ms : List (String × List Symbol)} (h : GathersWithin depth acc ms last) :
    ∀ m ∈ ms, Form m.2 := by
  intro m hm
  rcases h.forall_isRead m hm with ⟨v, hv⟩
  exact hv.2

/-- Every key of the members is a key of what is gathered. -/
theorem GathersWithin.exists_find? {acc last : List (String × Json)}
    {ms : List (String × List Symbol)} (h : GathersWithin depth acc ms last) {key : String}
    (hkey : (∃ v, Entries.find? key acc = some v) ∨ ∃ m ∈ ms, m.1 = key) :
    ∃ v, Entries.find? key last = some v := by
  induction h with
  | nil acc =>
      rcases hkey with hfound | ⟨m, hm, -⟩
      · exact hfound
      · cases hm
  | @cons acc next last name t ms head _ ih =>
      rcases head with ⟨w, -, rfl⟩
      refine ih ?_
      by_cases hname : key = name
      · exact .inl ⟨w, hname ▸ Entries.find?_insert_self name w acc⟩
      · rw [Entries.find?_insert_of_ne w acc hname]
        refine hkey.imp id ?_
        rintro ⟨m, hm, rfl⟩
        rcases List.mem_cons.1 hm with rfl | hm
        · exact absurd rfl hname
        · exact ⟨m, hm, rfl⟩

/-- What is read at the head of a text is read from its own text, if this is so inside brackets. -/
theorem exists_isRead (h : ReadsAs s rest depth v)
    (hinner : ∀ inner, depth = inner + 1 → Exact (readValue inner) (IsRead inner)) :
    ∃ b t, Blank b ∧ IsRead depth t v ∧ s = b ++ (t ++ rest) := by
  cases h with
  | null head tail =>
      rcases exists_skipSpace head with ⟨b, hb, rfl⟩
      obtain rfl := eq_of_word tail
      refine ⟨b, some 'n' :: ['u', 'l', 'l'].map some, hb,
        isRead_of_form (.scalar .null) fun rest' _ => ?_, rfl⟩
      rw [readValue]
      rfl
  | true head tail =>
      rcases exists_skipSpace head with ⟨b, hb, rfl⟩
      obtain rfl := eq_of_word tail
      refine ⟨b, some 't' :: ['r', 'u', 'e'].map some, hb,
        isRead_of_form (.scalar .true) fun rest' _ => ?_, rfl⟩
      rw [readValue]
      rfl
  | false head tail =>
      rcases exists_skipSpace head with ⟨b, hb, rfl⟩
      obtain rfl := eq_of_word tail
      refine ⟨b, some 'f' :: ['a', 'l', 's', 'e'].map some, hb,
        isRead_of_form (.scalar .false) fun rest' _ => ?_, rfl⟩
      rw [readValue]
      rfl
  | negative head tail =>
      rcases exists_skipSpace head with ⟨b, hb, rfl⟩
      rcases Numeral.read_local tail with ⟨t, rfl, ht, hagain⟩
      refine ⟨b, some '-' :: t, hb,
        isRead_of_form (.scalar (.negative ht)) fun rest' hrest' => ?_, rfl⟩
      rw [readValue]
      exact congrArg (Except.map _) (hagain rest' hrest')
  | number head digit tail =>
      rcases exists_skipSpace head with ⟨b, hb, rfl⟩
      rcases Numeral.read_local tail with ⟨t, htext, ht, hagain⟩
      refine ⟨b, t, hb, isRead_of_form (.scalar (.number ht)) fun rest' hrest' => ?_, ?_⟩
      · have hread := hagain rest' hrest'
        rcases Written.head ht with ⟨x, d, more, rfl, hx⟩
        rw [List.cons_append] at hread ⊢
        rw [readValue_digit hx, hread]
        rfl
      · rw [htext]
  | str head tail =>
      rcases exists_skipSpace head with ⟨b, hb, rfl⟩
      rcases Text.read_eq_ok_iff.1 tail with ⟨t, rfl, ht⟩
      refine ⟨b, some '"' :: t, hb,
        isRead_of_form (.scalar (.str ht.quoted)) fun rest' _ => ?_, rfl⟩
      rw [readValue]
      exact congrArg (Except.map _) (Text.read_eq_ok_iff.2 ⟨t, rfl, ht⟩)
  | @arr inner _ _ head tail =>
      rcases exists_skipSpace head with ⟨b, hb, rfl⟩
      have hread := hinner inner rfl
      rcases (items_eq_ok_iff hread).1 tail with ⟨t, ts, hts, hvalues, rfl⟩
      have hforms := forall_mem_of_forall₂ (P := Form) (fun h => h.2) hvalues
      refine ⟨b, some '[' :: t, hb, isRead_of_form (.list hts hforms) fun rest' _ => ?_, rfl⟩
      rw [List.cons_append, readValue_list, ← gather_readValue,
        (items_eq_ok_iff hread).2 ⟨t, ts, hts, hvalues, rfl⟩]
      rfl
  | @obj inner _ _ head tail =>
      rcases exists_skipSpace head with ⟨b, hb, rfl⟩
      have hmember := exactMember_within (hinner inner rfl)
      rcases (members_eq_ok_iff hmember).1 tail with ⟨t, ms, hms, hlast, rfl⟩
      rcases hms.loose (GathersWithin.forall_form hlast) with ⟨ms', hms', hforms'⟩
      refine ⟨b, some '\x7b' :: t, hb, isRead_of_form (.object hms' hforms') fun rest' _ => ?_, rfl⟩
      rw [List.cons_append, readValue_object,
        (members_eq_ok_iff hmember).2 ⟨t, ms, hms, hlast, rfl⟩]
      rfl

/-- A value is read exactly where its own text stands. -/
theorem exact_readValue (depth : Nat) : Exact (readValue depth) (IsRead depth) := by
  -- the values inside brackets are read with one level less
  induction depth with
  | zero =>
      refine ⟨fun h => h.1.starts, fun h => ?_, fun h hb hrest => h.1.taken hb hrest⟩
      exact exists_isRead (readsAs_of_readValue h) nofun
  | succ depth ih =>
      refine ⟨fun h => h.1.starts, fun h => ?_, fun h hb hrest => h.1.taken hb hrest⟩
      exact exists_isRead (readsAs_of_readValue h) fun inner heq => Nat.succ.inj heq ▸ ih

/-! ## The members of an object -/

theorem append_inj_form {t' s' : List Symbol} (ht : Form t) (ht' : Form t') (hs : Stops s)
    (hs' : Stops s') (h : t ++ s = t' ++ s') : t = t' ∧ s = s' := by
  have hskip := skipValue_form ht blank_nil hs
  have hskip' := skipValue_form ht' blank_nil hs'
  rw [List.nil_append] at hskip hskip'
  rw [h, hskip'] at hskip
  cases hskip
  exact ⟨List.append_cancel_right h, rfl⟩

theorem append_inj_blank {c : List Symbol} {t' : List Symbol} (hb : Blank b) (hc : Blank c)
    (ht : Starts t) (ht' : Starts t') (h : b ++ (t ++ s) = c ++ (t' ++ rest)) :
    t ++ s = t' ++ rest := by
  have hskip := congrArg skipSpace h
  rwa [skipSpace_append hb, skipSpace_append hc, ht.skipSpace, ht'.skipSpace] at hskip

/-- The text of an object has only one reading as keys and values. -/
theorem MemberTexts.unique {first : Bool} {ms ms' : List (String × List Symbol)} {s' : List Symbol}
    (h : MemberTexts IsKey first ms s) (hms : ∀ m ∈ ms, Form m.2)
    (h' : MemberTexts IsKey first ms' s') (hms' : ∀ m ∈ ms', Form m.2) (hs : s = s') :
    ms = ms' := by
  induction h generalizing ms' s' with
  | @close first b blank =>
      have hclose : nextKey first (b ++ [some '\x7d']) = .ok (.done []) := nextKey_close blank []
      cases h' with
      | close _ => rfl
      | member lead _ _ _ _ _ =>
          rw [hs, nextKey_key lead] at hclose
          cases hclose
  | @member first k l q c b t s ms lead key behind before starts more ih =>
      rcases List.forall_mem_cons.1 hms with ⟨ht, hmore⟩
      have hnext := nextKey_key lead (q ++ (c ++ some ':' :: (b ++ (t ++ s))))
      rw [hs] at hnext
      cases h' with
      | @close _ b' blank =>
          have hclose : nextKey first (b' ++ [some '\x7d']) = .ok (.done []) :=
            nextKey_close blank []
          rw [hclose] at hnext
          cases hnext
      | @member _ k' l' q' c' b' t' s' ms' lead' key' behind' before' starts' more' =>
          rcases List.forall_mem_cons.1 hms' with ⟨ht', hmore'⟩
          -- every part is read at the same place in both readings
          rw [nextKey_key lead'] at hnext
          have hread := Text.read_append key (c ++ some ':' :: (b ++ (t ++ s)))
          rw [← Next.item.inj (Except.ok.inj hnext), Text.read_append key'] at hread
          obtain ⟨rfl, hbehind⟩ := Prod.mk.inj (Except.ok.inj hread)
          have hcolon := colon_append behind (b ++ (t ++ s))
          rw [← hbehind, colon_append behind'] at hcolon
          have hvalue := append_inj_blank before' before starts' starts (Except.ok.inj hcolon)
          obtain ⟨rfl, hrest⟩ :=
            append_inj_form ht ht' more.stops_self more'.stops_self hvalue.symm
          rw [ih hmore more' hmore' hrest]

/-! ## Arrays and objects -/

/-- Whether a text is an object with these members, between blanks. -/
def ObjectText (s : List Symbol) (ms : List (String × List Symbol)) : Prop :=
  ∃ b t c, Blank b ∧ Blank c ∧ MemberTexts IsKey true ms t ∧ s = b ++ some '\x7b' :: (t ++ c)

/-- Whether a text is an array of these items, between blanks. -/
def ArrayText (s : List Symbol) (ts : List (List Symbol)) : Prop :=
  ∃ b t c, Blank b ∧ Blank c ∧ ItemTexts true ts t ∧ s = b ++ some '[' :: (t ++ c)

/-- Whether a value is read from a text of its own inside an object. -/
def Readable (t : List Symbol) : Prop := ∃ v, readValue (maxDepth - 1) t = .ok (v, [])

theorem finish_eq_ok_iff {a a' : α} : finish (a, s) = .ok a' ↔ a = a' ∧ Blank s := by
  rw [← skipSpace_eq_nil_iff]
  change (if skipSpace s = [] then _ else _) = _ ↔ _
  by_cases hs : skipSpace s = []
  · rw [if_pos hs]
    exact ⟨fun heq => ⟨Except.ok.inj heq, hs⟩, fun h => congrArg _ h.1⟩
  · rw [if_neg hs]
    exact ⟨nofun, fun h => absurd h.2 hs⟩

theorem readable_iff (ht : Starts t) : Readable t ↔ ∃ v, IsRead (maxDepth - 1) t v := by
  constructor
  · rintro ⟨v, hv⟩
    exact ⟨v, (exact_readValue _).takes ht hv⟩
  · rintro ⟨v, hv⟩
    exact ⟨v, hv.1.alone⟩

theorem exists_gathers {ms : List (String × List Symbol)}
    (h : ∀ m ∈ ms, ∃ v, IsRead depth m.2 v) (acc : List (String × Json)) :
    ∃ last, GathersWithin depth acc ms last := by
  induction ms generalizing acc with
  | nil => exact ⟨acc, .nil acc⟩
  | cons m ms ih =>
      rcases List.forall_mem_cons.1 h with ⟨⟨v, hv⟩, hms⟩
      rcases ih hms (Entries.insert m.1 v acc) with ⟨last, hlast⟩
      exact ⟨last, .cons ⟨v, hv, rfl⟩ hlast⟩

theorem ObjectText.not_array {ms : List (String × List Symbol)} {ts : List (List Symbol)}
    (h : ObjectText s ms) : ¬ ArrayText s ts := by
  rintro ⟨b', t', c', hb', -, -, hs'⟩
  rcases h with ⟨b, t, c, hb, -, -, hs⟩
  have hskip : skipSpace s = some '\x7b' :: (t ++ c) := by
    rw [hs, skipSpace_append hb, skipSpace_of_not_isSpace (by decide)]
  rw [hs', skipSpace_append hb', skipSpace_of_not_isSpace (by decide)] at hskip
  cases hskip

/-- The text of an object has only one reading as keys and values, also between blanks. -/
theorem ObjectText.unique {ms ms' : List (String × List Symbol)} (h : ObjectText s ms)
    (hms : ∀ m ∈ ms, Form m.2) (h' : ObjectText s ms') (hms' : ∀ m ∈ ms', Form m.2) :
    ms = ms' := by
  rcases h with ⟨b, t, c, hb, hc, ht, hs⟩
  rcases h' with ⟨b', t', c', hb', hc', ht', hs'⟩
  rcases ht.loose hms with ⟨_, hloose, hforms⟩
  rcases ht'.loose hms' with ⟨_, hloose', hforms'⟩
  have hsame : some '\x7b' :: (t ++ c) = some '\x7b' :: (t' ++ c') := by
    rw [← skipSpace_of_not_isSpace (x := some '\x7b') (by decide), ← skipSpace_append hb, ← hs, hs',
      skipSpace_append hb', skipSpace_of_not_isSpace (by decide)]
  obtain ⟨hobject, -⟩ := append_inj_form (.object hloose hforms) (.object hloose' hforms')
    hc.stops_self hc'.stops_self hsame
  exact ht.unique hms ht' hms' (List.cons.inj hobject).2

/-- What is read as an object is the text of one, and its values are gathered. -/
theorem exists_objectText {data : Bytes} {l : List (String × Json)}
    (h : parse data = .ok (.obj l)) :
    ∃ ms, ObjectText (Utf8.symbols data) ms ∧ GathersWithin (maxDepth - 1) [] ms l := by
  rcases bind_eq_ok_iff.1 h with ⟨⟨v, c⟩, hread, hfinish⟩
  obtain ⟨rfl, hc⟩ := finish_eq_ok_iff.1 hfinish
  cases readsAs_of_readValue hread with
  | obj head tail =>
      rcases exists_skipSpace head with ⟨b, hb, hs⟩
      rcases (members_eq_ok_iff (exactMember_within (exact_readValue _))).1 tail with
        ⟨t, ms, ht, hlast, rfl⟩
      exact ⟨ms, ⟨b, t, c, hb, hc, ht, hs⟩, hlast⟩

/-- An object is read exactly when all its values are. -/
theorem parse_object_iff {data : Bytes} {ms : List (String × List Symbol)}
    (h : ObjectText (Utf8.symbols data) ms) (hms : ∀ m ∈ ms, Form m.2) :
    (∃ l, parse data = .ok (.obj l)) ↔ ∀ m ∈ ms, Readable m.2 := by
  constructor
  · rintro ⟨l, hl⟩
    rcases exists_objectText hl with ⟨ms', hms', hlast⟩
    -- the members that were read are those of the text
    obtain rfl : ms = ms' := h.unique hms hms' (GathersWithin.forall_form hlast)
    rcases h with ⟨b, t, c, -, -, ht, -⟩
    exact fun m hm => (readable_iff (ht.starts m hm)).2 (GathersWithin.forall_isRead hlast m hm)
  · intro hreadable
    rcases h with ⟨b, t, c, hb, hc, ht, hdata⟩
    have hmember := exactMember_within (exact_readValue (maxDepth - 1))
    have hvalues : ∀ m ∈ ms, ∃ v, IsRead (maxDepth - 1) m.2 v := fun m hm =>
      (readable_iff (ht.starts m hm)).1 (hreadable m hm)
    rcases exists_gathers hvalues [] with ⟨last, hlast⟩
    have hmembers : members (memberWithin (maxDepth - 1)) [] (t ++ c) = .ok (last, c) :=
      (members_eq_ok_iff hmember).2 ⟨t, ms, ht, hlast, rfl⟩
    refine ⟨last, bind_eq_ok_iff.2 ⟨(.obj last, c), ?_, finish_eq_ok_iff.2 ⟨rfl, hc⟩⟩⟩
    rw [hdata, readValue_blank hb]
    change readValue (maxDepth - 1 + 1) _ = _
    rw [readValue_object, hmembers]
    rfl

end Json

end FencedPool
