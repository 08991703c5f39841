import FencedPool.Proofs.Json.Fields
import FencedPool.Proofs.Node.Members
import FencedPool.Proofs.Request.RoundTrip

/-!
# Schema — which payloads are read as requests

A request is read from an object whose known members have texts of their types and occur once at
most, or from an array of the same values in order.  The values of unknown members need only have
the form of a value, so not every such object can be read without the schema.

This file defines:

* `NodeRequest.RecordOf` and `NodeRequest.ListOf` — a request in the members of an object and in the
  items of an array;
* `NodeRequest.AcceptsSchema` — that objects with a named state, and no other payloads, are read.

The main statements are `NodeRequest.decode_eq_ok_iff` and `request_accepted_iff`.
-/

namespace FencedPool

open Json

open Json.Numeral (Stops)

namespace Json

/-- The texts of all members with a key. -/
def valuesOf (key : String) (ms : List (String × List Symbol)) : List (List Symbol) :=
  (ms.filter fun m => m.1 = key).map Prod.snd

variable {α : Type} {T : List Symbol → α → Prop} {t s rest : List Symbol}
  {ts : List (List Symbol)} {key : String} {ms : List (String × List Symbol)}

theorem valuesOf_cons (name : String) :
    valuesOf name ((key, t) :: ms) =
      if key = name then t :: valuesOf name ms else valuesOf name ms := by
  unfold valuesOf
  by_cases h : key = name
  · simp [h]
  · simp [h]

theorem mem_valuesOf (h : (key, t) ∈ ms) : t ∈ valuesOf key ms :=
  List.mem_map.2 ⟨(key, t), List.mem_filter.2 ⟨h, decide_eq_true rfl⟩, rfl⟩

namespace Field

/-- Whether a value that may be absent is what at most one text says. -/
def Lone (T : List Symbol → α → Prop) (ts : List (List Symbol)) (absent a : α) : Prop :=
  ts = [] ∧ a = absent ∨ ∃ t, ts = [t] ∧ T t a

/-- What becomes of a field that must not be repeated. -/
inductive Once (T : List Symbol → α → Prop) : Option α → List (List Symbol) → Option α → Prop
  | keep (current : Option α) : Once T current [] current
  | set {t : List Symbol} {a : α} (h : T t a) : Once T none [t] (some a)

theorem once_cons {current last : Option α} :
    Once T current (t :: ts) last ↔ current = none ∧ ∃ a, T t a ∧ Once T (some a) ts last := by
  constructor
  · rintro ⟨⟩
    next a h => exact ⟨rfl, a, h, .keep _⟩
  · rintro ⟨rfl, a, h, hts⟩
    cases hts
    exact .set h

theorem lone_iff_once {absent a : α} :
    Lone T ts absent a ↔ ∃ a?, Once T none ts a? ∧ a = a?.getD absent := by
  constructor
  · rintro (⟨rfl, rfl⟩ | ⟨t, rfl, ht⟩)
    · exact ⟨none, .keep none, rfl⟩
    · exact ⟨some a, .set ht, rfl⟩
  · rintro ⟨_, hts, rfl⟩
    cases hts with
    | keep => exact .inl ⟨rfl, rfl⟩
    | set ht => exact .inr ⟨_, rfl, ht⟩

theorem Lone.of_mem {absent a : α} (h : Lone T ts absent a) (ht : t ∈ ts) : T t a := by
  rcases h with ⟨rfl, -⟩ | ⟨u, rfl, hu⟩
  · exact absurd ht List.not_mem_nil
  · rwa [List.mem_singleton.1 ht]

theorem once_some_iff {a : α} : Once T none ts (some a) ↔ ∃ t, ts = [t] ∧ T t a := by
  constructor
  · rintro ⟨⟩
    next t h => exact ⟨t, rfl, h⟩
  · rintro ⟨t, rfl, ht⟩
    exact .set ht

/-! ## Members -/

variable {read : Reader α} {name : String} {current : Option α}

theorem exists_once (h : Exact read T) {a? : Option α}
    (honce : once name current read s = .ok (a?, rest)) :
    current = none ∧ ∃ c b t a, Blank c ∧ Blank b ∧ T t a ∧ a? = some a ∧
      s = c ++ some ':' :: (b ++ (t ++ rest)) := by
  unfold once at honce
  split at honce
  · cases honce
  · next hnone =>
      rcases bind_eq_ok_iff.1 honce with ⟨value, hcolon, hmore⟩
      rcases bind_eq_ok_iff.1 hmore with ⟨⟨a, after⟩, hread, heq⟩
      cases heq
      rcases exists_colon hcolon with ⟨c, hc, rfl⟩
      rcases h.sound hread with ⟨b, t, hb, ht, rfl⟩
      exact ⟨Option.not_isSome_iff_eq_none.1 hnone, c, b, t, a, hc, hb, ht, rfl, rfl⟩

theorem once_append (h : Exact read T) {a : α} {c b : List Symbol} (ht : T t a) (hc : Blank c)
    (hb : Blank b) (hrest : Stops rest) (name : String) :
    once name none read (c ++ some ':' :: (b ++ (t ++ rest))) = .ok (some a, rest) := by
  have hcolon := colon_append hc (b ++ (t ++ rest))
  have hread := h.complete ht hb hrest
  change (colon (c ++ some ':' :: (b ++ (t ++ rest))) >>= fun s' => read s' >>= fun r => _) = _
  simp only [hcolon, hread, bind, Except.bind]

theorem exists_skip {σ : Type} {acc next : σ} (h : skip acc s = .ok (next, rest)) :
    next = acc ∧ ∃ c b t, Blank c ∧ Blank b ∧ Form t ∧
      s = c ++ some ':' :: (b ++ (t ++ rest)) := by
  rcases bind_eq_ok_iff.1 h with ⟨value, hcolon, hmore⟩
  rcases bind_eq_ok_iff.1 hmore with ⟨after, hskip, heq⟩
  cases heq
  rcases exists_colon hcolon with ⟨c, hc, rfl⟩
  rcases exists_form_of_skipValue hskip with ⟨b, t, hb, ht, rfl⟩
  exact ⟨rfl, c, b, t, hc, hb, ht, rfl⟩

theorem skip_append {σ : Type} (acc : σ) {c b : List Symbol} (ht : Form t) (hc : Blank c)
    (hb : Blank b) (hrest : Stops rest) :
    skip acc (c ++ some ':' :: (b ++ (t ++ rest))) = .ok (acc, rest) := by
  have hcolon := colon_append hc (b ++ (t ++ rest))
  have hskip := skipValue_form ht hb hrest
  change (colon (c ++ some ':' :: (b ++ (t ++ rest))) >>= fun s' => skipValue s' >>= fun r => _) = _
  simp only [hcolon, hskip, bind, Except.bind]

end Field

end Json

open Json.Field

namespace NodeRequest

/-- The keys of the known members. -/
def fieldNames : List String :=
  ["consumerLabel", "poolLabel", "nodePoolID", "allocatedNodes", "state"]

/-- Whether a text names a state, by a string or by the only key of an object. -/
def IsState : List Symbol → RequestState → Prop := IsChoice RequestState.named?

/-- What a member does to a draft. -/
inductive IsMember : Draft → String → List Symbol → Draft → Prop
  | consumerLabel {d : Draft} {t : List Symbol} {a : String} (fresh : d.consumerLabel = none)
      (text : IsText t a) : IsMember d "consumerLabel" t { d with consumerLabel := some a }
  | poolLabel {d : Draft} {t : List Symbol} {a : String} (fresh : d.poolLabel = none)
      (text : IsText t a) : IsMember d "poolLabel" t { d with poolLabel := some a }
  | id {d : Draft} {t : List Symbol} {a : Option String} (fresh : d.id = none)
      (text : IsOptional IsText t a) : IsMember d "nodePoolID" t { d with id := some a }
  | allocatedNodes {d : Draft} {t : List Symbol} {a : List String}
      (fresh : d.allocatedNodes = none) (text : IsTexts t a) :
      IsMember d "allocatedNodes" t { d with allocatedNodes := some a }
  | state {d : Draft} {t : List Symbol} {a : RequestState} (fresh : d.state = none)
      (text : IsState t a) : IsMember d "state" t { d with state := some a }
  | other {d : Draft} {key : String} {t : List Symbol} (unknown : key ∉ fieldNames)
      (form : Form t) : IsMember d key t d

theorem exact_id : Exact (optional text) (IsOptional IsText) :=
  exact_optional exact_text isText_null

theorem exact_state : Exact RequestState.read IsState := exact_choice

theorem exactMember : ExactMember member IsMember where
  sound := by
    intro d next key s rest h
    unfold member at h
    split at h
    · rcases map_eq_ok_iff.1 h with ⟨⟨a?, after⟩, honce, heq⟩
      cases heq
      rcases exists_once exact_text honce with ⟨hfresh, c, b, t, a, hc, hb, ht, rfl, rfl⟩
      exact ⟨c, b, t, hc, hb, ht.starts, .consumerLabel hfresh ht, rfl⟩
    · rcases map_eq_ok_iff.1 h with ⟨⟨a?, after⟩, honce, heq⟩
      cases heq
      rcases exists_once exact_text honce with ⟨hfresh, c, b, t, a, hc, hb, ht, rfl, rfl⟩
      exact ⟨c, b, t, hc, hb, ht.starts, .poolLabel hfresh ht, rfl⟩
    · rcases map_eq_ok_iff.1 h with ⟨⟨a?, after⟩, honce, heq⟩
      cases heq
      rcases exists_once exact_id honce with ⟨hfresh, c, b, t, a, hc, hb, ht, rfl, rfl⟩
      exact ⟨c, b, t, hc, hb, exact_id.starts ht, .id hfresh ht, rfl⟩
    · rcases map_eq_ok_iff.1 h with ⟨⟨a?, after⟩, honce, heq⟩
      cases heq
      rcases exists_once exact_texts honce with ⟨hfresh, c, b, t, a, hc, hb, ht, rfl, rfl⟩
      exact ⟨c, b, t, hc, hb, exact_texts.starts ht, .allocatedNodes hfresh ht, rfl⟩
    · rcases map_eq_ok_iff.1 h with ⟨⟨a?, after⟩, honce, heq⟩
      cases heq
      rcases exists_once exact_state honce with ⟨hfresh, c, b, t, a, hc, hb, ht, rfl, rfl⟩
      exact ⟨c, b, t, hc, hb, exact_state.starts ht, .state hfresh ht, rfl⟩
    · next hconsumer hpool hid hnodes hstate =>
        rcases exists_skip h with ⟨rfl, c, b, t, hc, hb, ht, rfl⟩
        refine ⟨c, b, t, hc, hb, ht.starts, .other ?_ ht, rfl⟩
        simp only [fieldNames, List.mem_cons, List.not_mem_nil, or_false, not_or]
        exact ⟨hconsumer, hpool, hid, hnodes, hstate⟩
  complete := by
    intro d next key t c b rest h hc hb hrest
    cases h with
    | consumerLabel fresh ht =>
        change (once _ d.consumerLabel text _).map _ = _
        rw [fresh, once_append exact_text ht hc hb hrest]
        rfl
    | poolLabel fresh ht =>
        change (once _ d.poolLabel text _).map _ = _
        rw [fresh, once_append exact_text ht hc hb hrest]
        rfl
    | id fresh ht =>
        change (once _ d.id (optional text) _).map _ = _
        rw [fresh, once_append exact_id ht hc hb hrest]
        rfl
    | allocatedNodes fresh ht =>
        change (once _ d.allocatedNodes texts _).map _ = _
        rw [fresh, once_append exact_texts ht hc hb hrest]
        rfl
    | state fresh ht =>
        change (once _ d.state RequestState.read _).map _ = _
        rw [fresh, once_append exact_state ht hc hb hrest]
        rfl
    | other unknown ht =>
        have hskip := skip_append d ht hc hb hrest
        simp only [fieldNames, List.mem_cons, List.not_mem_nil, or_false, not_or] at unknown
        rcases unknown with ⟨hconsumer, hpool, hid, hnodes, hstate⟩
        unfold member
        split
        · exact absurd rfl hconsumer
        · exact absurd rfl hpool
        · exact absurd rfl hid
        · exact absurd rfl hnodes
        · exact absurd rfl hstate
        · exact hskip

/-! ## All members -/

/-- What the members of an object do to a draft, field by field. -/
structure Fills (d : Draft) (ms : List (String × List Symbol)) (last : Draft) : Prop where
  consumerLabel : Once IsText d.consumerLabel (valuesOf "consumerLabel" ms) last.consumerLabel
  poolLabel : Once IsText d.poolLabel (valuesOf "poolLabel" ms) last.poolLabel
  id : Once (IsOptional IsText) d.id (valuesOf "nodePoolID" ms) last.id
  allocatedNodes : Once IsTexts d.allocatedNodes (valuesOf "allocatedNodes" ms) last.allocatedNodes
  state : Once IsState d.state (valuesOf "state" ms) last.state
  others : ∀ m ∈ ms, m.1 ∉ fieldNames → Form m.2

theorem fills_nil {d last : Draft} : Fills d [] last ↔ last = d := by
  constructor
  · rintro ⟨hconsumer, hpool, hid, hnodes, hstate, -⟩
    cases d
    cases last
    cases hconsumer
    cases hpool
    cases hid
    cases hnodes
    cases hstate
    rfl
  · rintro rfl
    exact ⟨.keep _, .keep _, .keep _, .keep _, .keep _, nofun⟩

/-- A member fills its own field and leaves the others to the members behind it. -/
theorem fills_cons {d last : Draft} {key : String} {t : List Symbol}
    {ms : List (String × List Symbol)} :
    Fills d ((key, t) :: ms) last ↔ ∃ next, IsMember d key t next ∧ Fills next ms last := by
  constructor
  · rintro ⟨hconsumer, hpool, hid, hnodes, hstate, hothers⟩
    rcases List.forall_mem_cons.1 hothers with ⟨hother, hmore⟩
    rw [valuesOf_cons] at hconsumer hpool hid hnodes hstate
    by_cases hkey : key ∈ fieldNames
    · simp only [fieldNames, List.mem_cons, List.not_mem_nil, or_false] at hkey
      rcases hkey with rfl | rfl | rfl | rfl | rfl
      · rcases once_cons.1 hconsumer with ⟨fresh, a, ht, hconsumer⟩
        exact ⟨_, .consumerLabel fresh ht, hconsumer, hpool, hid, hnodes, hstate, hmore⟩
      · rcases once_cons.1 hpool with ⟨fresh, a, ht, hpool⟩
        exact ⟨_, .poolLabel fresh ht, hconsumer, hpool, hid, hnodes, hstate, hmore⟩
      · rcases once_cons.1 hid with ⟨fresh, a, ht, hid⟩
        exact ⟨_, .id fresh ht, hconsumer, hpool, hid, hnodes, hstate, hmore⟩
      · rcases once_cons.1 hnodes with ⟨fresh, a, ht, hnodes⟩
        exact ⟨_, .allocatedNodes fresh ht, hconsumer, hpool, hid, hnodes, hstate, hmore⟩
      · rcases once_cons.1 hstate with ⟨fresh, a, ht, hstate⟩
        exact ⟨_, .state fresh ht, hconsumer, hpool, hid, hnodes, hstate, hmore⟩
    · have hne : ∀ name ∈ fieldNames, key ≠ name := fun name hname heq => hkey (heq ▸ hname)
      rw [if_neg (hne _ (by decide))] at hconsumer hpool hid hnodes hstate
      exact ⟨d, .other hkey (hother hkey), hconsumer, hpool, hid, hnodes, hstate, hmore⟩
  · rintro ⟨next, hmember, hconsumer, hpool, hid, hnodes, hstate, hothers⟩
    have hknown : key ∈ fieldNames → ∀ m ∈ (key, t) :: ms, m.1 ∉ fieldNames → Form m.2 :=
      fun hkey => List.forall_mem_cons.2 ⟨fun hunknown => absurd hkey hunknown, hothers⟩
    cases hmember with
    | consumerLabel fresh ht =>
        have hconsumer := once_cons.2 ⟨fresh, _, ht, hconsumer⟩
        exact ⟨hconsumer, hpool, hid, hnodes, hstate, hknown (by decide)⟩
    | poolLabel fresh ht =>
        have hpool := once_cons.2 ⟨fresh, _, ht, hpool⟩
        exact ⟨hconsumer, hpool, hid, hnodes, hstate, hknown (by decide)⟩
    | id fresh ht =>
        have hid := once_cons.2 ⟨fresh, _, ht, hid⟩
        exact ⟨hconsumer, hpool, hid, hnodes, hstate, hknown (by decide)⟩
    | allocatedNodes fresh ht =>
        have hnodes := once_cons.2 ⟨fresh, _, ht, hnodes⟩
        exact ⟨hconsumer, hpool, hid, hnodes, hstate, hknown (by decide)⟩
    | state fresh ht =>
        have hstate := once_cons.2 ⟨fresh, _, ht, hstate⟩
        exact ⟨hconsumer, hpool, hid, hnodes, hstate, hknown (by decide)⟩
    | other unknown ht =>
        have hne : ∀ name ∈ fieldNames, key ≠ name :=
          fun name hname heq => unknown (heq ▸ hname)
        have hsame : ∀ name ∈ fieldNames, valuesOf name ((key, t) :: ms) = valuesOf name ms :=
          fun name hname => by rw [valuesOf_cons, if_neg (hne name hname)]
        refine ⟨?_, ?_, ?_, ?_, ?_, List.forall_mem_cons.2 ⟨fun _ => ht, hothers⟩⟩
        · rwa [hsame _ (by decide)]
        · rwa [hsame _ (by decide)]
        · rwa [hsame _ (by decide)]
        · rwa [hsame _ (by decide)]
        · rwa [hsame _ (by decide)]

theorem gathers_iff_fills {d last : Draft} {ms : List (String × List Symbol)} :
    Gathers IsMember d ms last ↔ Fills d ms last := by
  induction ms generalizing d with
  | nil =>
      rw [fills_nil]
      constructor
      · rintro ⟨⟩
        rfl
      · rintro rfl
        exact .nil _
  | cons m ms ih =>
      rw [fills_cons]
      constructor
      · rintro ⟨⟩
        next head tail => exact ⟨_, head, ih.1 tail⟩
      · rintro ⟨next, head, hfills⟩
        exact .cons head (ih.2 hfills)

/-! ## Records -/

/-- Whether a request is in the members of an object, with its state in texts of some form. -/
structure RecordOf (State : List Symbol → RequestState → Prop)
    (ms : List (String × List Symbol)) (r : NodeRequest) : Prop where
  consumerLabel : ∃ t, valuesOf "consumerLabel" ms = [t] ∧ IsText t r.consumerLabel
  poolLabel : ∃ t, valuesOf "poolLabel" ms = [t] ∧ IsText t r.poolLabel
  id : Lone (IsOptional IsText) (valuesOf "nodePoolID" ms) none r.id
  allocatedNodes : Lone IsTexts (valuesOf "allocatedNodes" ms) [] r.allocatedNodes
  state : Lone State (valuesOf "state" ms) .requested r.state
  others : ∀ m ∈ ms, m.1 ∉ fieldNames → Form m.2

/-- Whether a request is in the items of an array, where those behind the identity may be absent. -/
def ListOf (ts : List (List Symbol)) (r : NodeRequest) : Prop :=
  ∃ consumer pool id more, ts = consumer :: pool :: id :: more ∧
    IsText consumer r.consumerLabel ∧ IsText pool r.poolLabel ∧ IsOptional IsText id r.id ∧
    Lone IsTexts (more.take 1) [] r.allocatedNodes ∧ Lone IsState (more.drop 1) .requested r.state

variable {r : NodeRequest} {s rest last t : List Symbol} {more : List (List Symbol)}

theorem required_eq_ok_iff {α : Type} {name : String} {a? : Option α} {a : α} :
    Field.required name a? = .ok a ↔ a? = some a := by
  cases a? with
  | none => exact ⟨nofun, nofun⟩
  | some b =>
      exact ⟨fun h => congrArg some (Except.ok.inj h), fun h => congrArg _ (Option.some.inj h)⟩

theorem fromObject_eq_ok_iff :
    fromObject s = .ok (r, rest) ↔ r.path = none ∧
      ∃ t ms, MemberTexts IsKey true ms t ∧ RecordOf IsState ms r ∧ s = t ++ rest := by
  constructor
  · intro h
    rcases bind_eq_ok_iff.1 h with ⟨⟨d, after⟩, hmembers, hmore⟩
    rcases bind_eq_ok_iff.1 hmore with ⟨consumer, hconsumer, hmore⟩
    rcases bind_eq_ok_iff.1 hmore with ⟨pool, hpool, heq⟩
    cases heq
    rcases (members_eq_ok_iff exactMember).1 hmembers with ⟨t, ms, ht, hlast, rfl⟩
    have hfills := gathers_iff_fills.1 hlast
    refine ⟨rfl, t, ms, ht, ?_, rfl⟩
    exact {
      consumerLabel := once_some_iff.1 (required_eq_ok_iff.1 hconsumer ▸ hfills.consumerLabel)
      poolLabel := once_some_iff.1 (required_eq_ok_iff.1 hpool ▸ hfills.poolLabel)
      id := lone_iff_once.2 ⟨d.id, hfills.id, rfl⟩
      allocatedNodes := lone_iff_once.2 ⟨d.allocatedNodes, hfills.allocatedNodes, rfl⟩
      state := lone_iff_once.2 ⟨d.state, hfills.state, rfl⟩
      others := hfills.others }
  · rintro ⟨hpath, t, ms, ht, hrecord, rfl⟩
    rcases lone_iff_once.1 hrecord.id with ⟨id?, hid, hid_eq⟩
    rcases lone_iff_once.1 hrecord.allocatedNodes with ⟨nodes?, hnodes, hnodes_eq⟩
    rcases lone_iff_once.1 hrecord.state with ⟨state?, hstate, hstate_eq⟩
    have hfills : Fills {} ms ⟨some r.consumerLabel, some r.poolLabel, id?, nodes?, state?⟩ := {
      consumerLabel := once_some_iff.2 hrecord.consumerLabel
      poolLabel := once_some_iff.2 hrecord.poolLabel
      id := hid
      allocatedNodes := hnodes
      state := hstate
      others := hrecord.others }
    have hmembers : Json.members member {} (t ++ rest) =
        .ok (⟨some r.consumerLabel, some r.poolLabel, id?, nodes?, state?⟩, rest) :=
      (members_eq_ok_iff exactMember).2 ⟨t, ms, ht, gathers_iff_fills.2 hfills, rfl⟩
    unfold fromObject
    rw [hmembers]
    change Except.ok (_, rest) = _
    rw [← hid_eq, ← hnodes_eq, ← hstate_eq, ← hpath]

theorem exists_optionalItems {nodes? : Option (List String)} {state? : Option RequestState}
    {after behind : List Symbol} (hnodes : Field.item? false texts s = .ok (nodes?, after))
    (hstate : Field.item? false RequestState.read after = .ok (state?, behind))
    (hclose : closeArray behind = .ok last) :
    ∃ t more, ItemTexts false more t ∧ Lone IsTexts (more.take 1) [] (nodes?.getD []) ∧
      Lone IsState (more.drop 1) .requested (state?.getD .requested) ∧ s = t ++ last := by
  rcases exists_closeArray hclose with ⟨b, hb, rfl⟩
  rcases exists_item? exact_state hstate with
    ⟨l, t, state, hl, ht, rfl, rfl⟩ | ⟨rfl, hsame, b', last', hb', hafter⟩
  · rcases exists_item? exact_texts hnodes with
      ⟨l', t', nodes, hl', ht', rfl, rfl⟩ | ⟨rfl, hsame, b', last', hb', hs⟩
    · have hmore : ItemTexts false [t', t] (l' ++ (t' ++ (l ++ (t ++ (b ++ [some ']']))))) :=
        .item hl' (exact_texts.starts ht') (.item hl (exact_state.starts ht) (.close hb))
      exact ⟨_, _, hmore, .inr ⟨t', rfl, ht'⟩, .inr ⟨t, rfl, ht⟩, by simp⟩
    · -- what closes the array is no state
      have hnext := nextItem_item hl (exact_state.starts ht) (b ++ some ']' :: last)
      rw [hsame, hs, nextItem_close hb'] at hnext
      cases hnext
  · rcases exists_item? exact_texts hnodes with
      ⟨l', t', nodes, hl', ht', rfl, rfl⟩ | ⟨rfl, hsame', b', last', hb', hs⟩
    · have hmore : ItemTexts false [t'] (l' ++ (t' ++ (b ++ [some ']']))) :=
        .item hl' (exact_texts.starts ht') (.close hb)
      refine ⟨_, _, hmore, .inr ⟨t', rfl, ht'⟩, .inl ⟨rfl, rfl⟩, ?_⟩
      rw [← hsame]
      simp
    · refine ⟨_, _, .close hb, .inl ⟨rfl, rfl⟩, .inl ⟨rfl, rfl⟩, ?_⟩
      rw [← hsame', ← hsame]
      simp

theorem optionalItems_append {nodes : List String} {state : RequestState}
    (ht : ItemTexts false more t) (hnodes : Lone IsTexts (more.take 1) [] nodes)
    (hstate : Lone IsState (more.drop 1) .requested state) (last : List Symbol) :
    ∃ nodes? state? after behind, Field.item? false texts (t ++ last) = .ok (nodes?, after) ∧
      Field.item? false RequestState.read after = .ok (state?, behind) ∧
      closeArray behind = .ok last ∧ nodes?.getD [] = nodes ∧ state?.getD .requested = state := by
  cases ht with
  | close hb =>
      rcases hnodes with ⟨-, rfl⟩ | ⟨_, ⟨⟩, -⟩
      rcases hstate with ⟨-, rfl⟩ | ⟨_, ⟨⟩, -⟩
      rw [List.append_assoc]
      exact ⟨none, none, _, _, item?_close _ hb last, item?_close _ hb last,
        closeArray_close hb last, rfl, rfl⟩
  | item hl _ htail =>
      rcases hnodes with ⟨⟨⟩, -⟩ | ⟨_, ⟨⟩, ht⟩
      have hfirst := item?_append exact_texts hl ht (htail.stops last)
      cases htail with
      | close hb =>
          rcases hstate with ⟨-, rfl⟩ | ⟨_, ⟨⟩, -⟩
          rw [List.append_assoc, List.append_assoc, List.append_assoc] at *
          exact ⟨some nodes, none, _, _, hfirst, item?_close _ hb last, closeArray_close hb last,
            rfl, rfl⟩
      | item hl' _ hclose =>
          rcases hstate with ⟨⟨⟩, -⟩ | ⟨_, heq, ht'⟩
          cases heq
          have hsecond := item?_append exact_state hl' ht' (hclose.stops last)
          cases hclose with
          | close hb =>
              refine ⟨some nodes, some state, _, _, ?_, hsecond, ?_, rfl, rfl⟩
              · rw [List.append_assoc, List.append_assoc, hfirst]
                simp
              · rw [List.append_assoc]
                exact closeArray_close hb last

/-- A request is read from the items of an array. -/
theorem fromArray_eq_ok_iff :
    (∃ after, fromArray s = .ok (r, after) ∧ closeArray after = .ok last) ↔
      r.path = none ∧ ∃ t ts, ItemTexts true ts t ∧ ListOf ts r ∧ s = t ++ last := by
  constructor
  · rintro ⟨after, h, hclose⟩
    rcases bind_eq_ok_iff.1 h with ⟨⟨consumer, s₁⟩, hconsumer, h₁⟩
    rcases bind_eq_ok_iff.1 h₁ with ⟨⟨pool, s₂⟩, hpool, h₂⟩
    rcases bind_eq_ok_iff.1 h₂ with ⟨⟨id, s₃⟩, hid, h₃⟩
    rcases bind_eq_ok_iff.1 h₃ with ⟨⟨nodes?, s₄⟩, hnodes, h₄⟩
    rcases bind_eq_ok_iff.1 h₄ with ⟨⟨state?, s₅⟩, hstate, heq⟩
    cases heq
    rcases exists_item exact_text hconsumer with ⟨l, t, hl, ht, rfl⟩
    rcases exists_item exact_text hpool with ⟨l', t', hl', ht', rfl⟩
    rcases exists_item exact_id hid with ⟨l'', t'', hl'', ht'', rfl⟩
    rcases exists_optionalItems hnodes hstate hclose with ⟨u, more, hu, hns, hst, rfl⟩
    exact ⟨rfl, _, _,
      .item hl ht.starts (.item hl' ht'.starts (.item hl'' (exact_id.starts ht'') hu)),
      ⟨t, t', t'', more, rfl, ht, ht', ht'', hns, hst⟩, by simp⟩
  · rintro ⟨hpath, t, ts, hts, ⟨c, p, i, more, rfl, hc, hp, hi, hns, hst⟩, rfl⟩
    cases hts with
    | @item _ l _ s₁ _ hl _ h₁ =>
        have hconsumer : Field.item 0 shape text (l ++ (c ++ (s₁ ++ last))) =
            .ok (r.consumerLabel, s₁ ++ last) := item_append exact_text hl hc (h₁.stops last)
        cases h₁ with
        | @item _ l' _ s₂ _ hl' _ h₂ =>
            have hpool : Field.item 1 shape text (l' ++ (p ++ (s₂ ++ last))) =
                .ok (r.poolLabel, s₂ ++ last) := item_append exact_text hl' hp (h₂.stops last)
            cases h₂ with
            | @item _ l'' _ s₃ _ hl'' _ h₃ =>
                have hid : Field.item 2 shape (optional text) (l'' ++ (i ++ (s₃ ++ last))) =
                    .ok (r.id, s₃ ++ last) := item_append exact_id hl'' hi (h₃.stops last)
                rcases optionalItems_append h₃ hns hst last with
                  ⟨nodes?, state?, after, behind, hnodes, hstate, hclose, hnodes_eq, hstate_eq⟩
                refine ⟨behind, ?_, hclose⟩
                simp only [List.append_assoc] at hconsumer hpool hid ⊢
                unfold fromArray
                simp only [hconsumer, hpool, hid, hnodes, hstate, hnodes_eq, hstate_eq, bind,
                  Except.bind, ← hpath]

/-! ## Payloads -/

theorem exists_record {wanted : String} {fromObject fromArray : Reader NodeRequest}
    (h : Field.record wanted fromObject fromArray s = .ok (r, rest)) :
    ∃ b more, Blank b ∧
      (s = b ++ some '\x7b' :: more ∧ fromObject more = .ok (r, rest) ∨
        s = b ++ some '[' :: more ∧
          ∃ after, fromArray more = .ok (r, after) ∧ closeArray after = .ok rest) := by
  unfold Field.record at h
  split at h
  · cases h
  · next hspace =>
      rcases exists_skipSpace hspace with ⟨b, hb, hs⟩
      rcases bind_eq_ok_iff.1 h with ⟨⟨a, after⟩, harray, hmore⟩
      rcases bind_eq_ok_iff.1 hmore with ⟨last, hclose, heq⟩
      cases heq
      exact ⟨b, _, hb, .inr ⟨hs, after, harray, hclose⟩⟩
  · next hspace =>
      rcases exists_skipSpace hspace with ⟨b, hb, hs⟩
      exact ⟨b, _, hb, .inl ⟨hs, h⟩⟩
  · cases h

/-- A request is read from the members of an object or from the items of an array. -/
theorem read_eq_ok_iff {data : Bytes} :
    read data = .ok r ↔ r.path = none ∧
      ((∃ ms, ObjectText (Utf8.symbols data) ms ∧ RecordOf IsState ms r) ∨
        ∃ ts, ArrayText (Utf8.symbols data) ts ∧ ListOf ts r) := by
  constructor
  · intro h
    rcases bind_eq_ok_iff.1 h with ⟨⟨q, c⟩, hrecord, hfinish⟩
    obtain ⟨rfl, hc⟩ := finish_eq_ok_iff.1 hfinish
    rcases exists_record hrecord with ⟨b, more, hb, ⟨hdata, hobject⟩ | ⟨hdata, harray⟩⟩
    · rcases fromObject_eq_ok_iff.1 hobject with ⟨hpath, t, ms, ht, hq, rfl⟩
      exact ⟨hpath, .inl ⟨ms, ⟨b, t, c, hb, hc, ht, hdata⟩, hq⟩⟩
    · rcases fromArray_eq_ok_iff.1 harray with ⟨hpath, t, ts, ht, hq, rfl⟩
      exact ⟨hpath, .inr ⟨ts, ⟨b, t, c, hb, hc, ht, hdata⟩, hq⟩⟩
  · rintro ⟨hpath, ⟨ms, ⟨b, t, c, hb, hc, ht, hdata⟩, hr⟩ | ⟨ts, ⟨b, t, c, hb, hc, ht, hdata⟩, hr⟩⟩
    · have hobject : fromObject (t ++ c) = .ok (r, c) :=
        fromObject_eq_ok_iff.2 ⟨hpath, t, ms, ht, hr, rfl⟩
      refine bind_eq_ok_iff.2 ⟨(r, c), ?_, finish_eq_ok_iff.2 ⟨rfl, hc⟩⟩
      unfold Field.record
      rw [hdata, skipSpace_append hb, skipSpace_of_not_isSpace (by decide)]
      exact hobject
    · have harray : ∃ after, fromArray (t ++ c) = .ok (r, after) ∧ closeArray after = .ok c :=
        fromArray_eq_ok_iff.2 ⟨hpath, t, ts, ht, hr, rfl⟩
      rcases harray with ⟨after, harray, hclose⟩
      refine bind_eq_ok_iff.2 ⟨(r, c), ?_, finish_eq_ok_iff.2 ⟨rfl, hc⟩⟩
      unfold Field.record
      rw [hdata, skipSpace_append hb, skipSpace_of_not_isSpace (by decide)]
      exact bind_eq_ok_iff.2 ⟨(r, after), harray, bind_eq_ok_iff.2 ⟨c, hclose, rfl⟩⟩

theorem decode_eq_ok_iff_read {path : String} {data : Bytes} :
    decode path data = .ok r ↔
      r.path = some path ∧ r.Filled ∧ read data = .ok { r with path := none } := by
  unfold decode
  constructor
  · intro h
    split at h
    · cases h
    · next q hread =>
        have hpath := (read_eq_ok_iff.1 hread).1
        split at h
        · cases h
        · next hpart =>
            cases h
            refine ⟨rfl, emptyPart?_eq_none_iff.1 hpart, ?_⟩
            rw [hread, ← hpath]
  · rintro ⟨hpath, hfilled, hread⟩
    have hpart : emptyPart? { r with path := none } = none := emptyPart?_eq_none_iff.2 hfilled
    rw [hread]
    dsimp only
    rw [hpart]
    dsimp only
    rw [← hpath]

theorem RecordOf.withPath {State : List Symbol → RequestState → Prop}
    {ms : List (String × List Symbol)} (h : RecordOf State ms r) (path : Option String) :
    RecordOf State ms { r with path := path } :=
  ⟨h.consumerLabel, h.poolLabel, h.id, h.allocatedNodes, h.state, h.others⟩

/-- A payload is accepted as a request that has no empty part. -/
theorem decode_eq_ok_iff {path : String} {data : Bytes} :
    decode path data = .ok r ↔ r.path = some path ∧ r.Filled ∧
      ((∃ ms, ObjectText (Utf8.symbols data) ms ∧ RecordOf IsState ms r) ∨
        ∃ ts, ArrayText (Utf8.symbols data) ts ∧ ListOf ts r) := by
  rw [decode_eq_ok_iff_read, read_eq_ok_iff]
  constructor
  · rintro ⟨hpath, hfilled, -, ⟨ms, hms, hr⟩ | hts⟩
    · exact ⟨hpath, hfilled, .inl ⟨ms, hms, hr.withPath r.path⟩⟩
    · exact ⟨hpath, hfilled, .inr hts⟩
  · rintro ⟨hpath, hfilled, ⟨ms, hms, hr⟩ | hts⟩
    · exact ⟨hpath, hfilled, rfl, .inl ⟨ms, hms, hr.withPath none⟩⟩
    · exact ⟨hpath, hfilled, rfl, .inr hts⟩

/-! ## Without the schema -/

/-- The known members of a record can be read without the schema. -/
theorem RecordOf.exists_isRead {ms : List (String × List Symbol)} (h : RecordOf IsState ms r)
    {m : String × List Symbol} (hm : m ∈ ms) (hkey : m.1 ∈ fieldNames) (depth : Nat) :
    ∃ v, IsRead (depth + 1) m.2 v := by
  rcases m with ⟨key, t⟩
  have ht := mem_valuesOf hm
  simp only [fieldNames, List.mem_cons, List.not_mem_nil, or_false] at hkey
  rcases hkey with rfl | rfl | rfl | rfl | rfl
  · rcases h.consumerLabel with ⟨u, hu, htext⟩
    rw [hu] at ht
    exact ⟨_, List.mem_singleton.1 ht ▸ htext.isRead _⟩
  · rcases h.poolLabel with ⟨u, hu, htext⟩
    rw [hu] at ht
    exact ⟨_, List.mem_singleton.1 ht ▸ htext.isRead _⟩
  · exact (h.id.of_mem ht).exists_isRead _
  · exact (h.allocatedNodes.of_mem ht).exists_isRead depth
  · exact (h.state.of_mem ht).exists_isRead depth

theorem RecordOf.form {ms : List (String × List Symbol)} (h : RecordOf IsState ms r) :
    ∀ m ∈ ms, Form m.2 := by
  intro m hm
  by_cases hkey : m.1 ∈ fieldNames
  · rcases h.exists_isRead hm hkey 0 with ⟨v, hv⟩
    exact hv.2
  · exact h.others m hm hkey

/-- A request that can also be read without the schema has its consumer among the members. -/
theorem exists_find?_of_decode {path : String} {data : Bytes} {l : List (String × Json)}
    (h : decode path data = .ok r) (hl : Json.parse data = .ok (.obj l)) :
    ∃ v, Entries.find? "consumerLabel" l = some v := by
  rcases exists_objectText hl with ⟨ms, hms, hlast⟩
  rcases decode_eq_ok_iff.1 h with ⟨-, -, ⟨ms', hms', hr⟩ | ⟨ts, hts, -⟩⟩
  · obtain rfl := hms'.unique hr.form hms (GathersWithin.forall_form hlast)
    rcases hr.consumerLabel with ⟨t, ht, -⟩
    have hmem : t ∈ valuesOf "consumerLabel" ms' := ht ▸ List.mem_singleton_self t
    rcases List.mem_map.1 hmem with ⟨m, hm, -⟩
    rcases List.mem_filter.1 hm with ⟨hm, hkey⟩
    exact GathersWithin.exists_find? hlast (.inr ⟨m, hm, of_decide_eq_true hkey⟩)
  · exact absurd hts hms.not_array

/-- A record can be read without the schema exactly when its unknown members can. -/
theorem RecordOf.decodeObject_iff {path : String} {data : Bytes}
    {ms : List (String × List Symbol)} (h : RecordOf IsState ms r)
    (hdata : ObjectText (Utf8.symbols data) ms) :
    (∃ l, decodeObject path data = .ok l) ↔ ∀ m ∈ ms, m.1 ∉ fieldNames → Readable m.2 := by
  have hparse := parse_object_iff hdata h.form
  simp only [decodeObject_eq_ok_iff]
  rw [hparse]
  constructor
  · exact fun hreadable m hm _ => hreadable m hm
  · intro hreadable m hm
    by_cases hkey : m.1 ∈ fieldNames
    · rcases h.exists_isRead hm hkey (maxDepth - 2) with ⟨v, hv⟩
      exact ⟨v, hv.1.alone⟩
    · exact hreadable m hm hkey

/-- Whether a text is the name of a state. -/
def NamesState (t : List Symbol) (s : RequestState) : Prop := IsText t s.display

/-- Whether the payloads that are accepted are exactly the objects of the schema in which a state is
a string, and all of them without repeated keys can also be read as objects. -/
def AcceptsSchema : Prop :=
  ∀ path data,
    (∀ r, decode path data = .ok r ↔ r.path = some path ∧ r.Filled ∧
      ∃ ms, ObjectText (Utf8.symbols data) ms ∧ RecordOf NamesState ms r) ∧
    ((∃ r, decode path data = .ok r) →
      (∀ ms, ObjectText (Utf8.symbols data) ms → (ms.map Prod.fst).Nodup) →
        ∃ l, decodeObject path data = .ok l)

end NodeRequest

open NodeRequest

/-- A payload is accepted as a request exactly when it is an object of the schema, where a state may
also be the only key of an object, or an array of the same values in order, and no part of it is
empty.  It can be read as an object as well exactly when it is one and the values of its unknown
members can be read. -/
theorem request_accepted_iff (path : String) (data : Bytes) (r : NodeRequest) :
    (NodeRequest.decode path data = .ok r ↔ r.path = some path ∧ r.Filled ∧
      ((∃ ms, ObjectText (Utf8.symbols data) ms ∧ RecordOf IsState ms r) ∨
        ∃ ts, ArrayText (Utf8.symbols data) ts ∧ ListOf ts r)) ∧
    ((NodeRequest.decode path data = .ok r ∧ ∃ l, decodeObject path data = .ok l) ↔
      r.path = some path ∧ r.Filled ∧
        ∃ ms, ObjectText (Utf8.symbols data) ms ∧ RecordOf IsState ms r ∧
          ∀ m ∈ ms, m.1 ∉ fieldNames → Readable m.2) := by
  refine ⟨decode_eq_ok_iff, ?_⟩
  rw [decode_eq_ok_iff]
  constructor
  · rintro ⟨⟨hpath, hfilled, ⟨ms, hms, hr⟩ | ⟨ts, hts, -⟩⟩, hobject⟩
    · exact ⟨hpath, hfilled, ms, hms, hr, (hr.decodeObject_iff hms).1 hobject⟩
    · rcases hobject with ⟨l, hl⟩
      rcases exists_objectText (decodeObject_eq_ok_iff.1 hl) with ⟨ms, hms, -⟩
      exact absurd hts hms.not_array
  · rintro ⟨hpath, hfilled, ms, hms, hr, hreadable⟩
    exact ⟨⟨hpath, hfilled, .inl ⟨ms, hms, hr⟩⟩, (hr.decodeObject_iff hms).2 hreadable⟩

/-- An array of a consumer, a label and no identity is accepted, and it is no object. -/
theorem not_acceptsSchema : ¬ AcceptsSchema := by
  intro h
  have hdecode : NodeRequest.decode "/p" (Utf8.bytes "[\"consumer\",\"label\",null]") =
      .ok ⟨"consumer", "label", none, [], .requested, some "/p"⟩ := by rfl
  rcases ((h "/p" _).1 _).1 hdecode with ⟨-, -, ms, hms, -⟩
  rcases hms with ⟨b, t, c, hb, -, -, hs⟩
  have hskip := congrArg skipSpace hs
  rw [skipSpace_append hb, skipSpace_of_not_isSpace (by decide)] at hskip
  have hbracket : skipSpace (Utf8.symbols (Utf8.bytes "[\"consumer\",\"label\",null]")) =
      some '[' :: _ := rfl
  rw [hbracket] at hskip
  cases hskip

end FencedPool
