import FencedPool.Proofs.Json.NumberForm
import FencedPool.Proofs.Json.Layout
import FencedPool.Proofs.Json.Spelling
import Mathlib.Data.List.Forall2
import Mathlib.Data.List.TakeWhile

/-!
# Separated — arrays and objects as lists of texts

An array is a list of texts, one for each item, with blanks and commas between them; an object also
has a key and a colon before each text.  Where a reader takes exactly the texts of some form as its
items or members, a loop over it takes exactly the arrays or objects of such texts.

This file defines:

* `Json.ItemTexts` and `Json.MemberTexts` — the texts of items and members, with all between them;
* `Json.Exact` and `Json.ExactMember` — that a reader takes exactly the texts of a form;
* `Json.Gathers` — what is gathered from members one after the other.

The main statements are `Json.items_eq_ok_iff` and `Json.members_eq_ok_iff`.
-/

namespace FencedPool

namespace Json

def Blank (s : List Symbol) : Prop := ∀ x ∈ s, isSpace x = true

/-- Whether a text begins so that it can be a value: neither with what separates values nor with
what closes an array. -/
def Starts (s : List Symbol) : Prop :=
  ∃ x more, s = x :: more ∧ isSpace x = false ∧ x ≠ some ']' ∧ x ≠ some ','

/-- What stands before an item or a key: blanks, and a comma among them unless it is the first. -/
def Lead : Bool → List Symbol → Prop
  | true, s => Blank s
  | false, s => ∃ b c, Blank b ∧ Blank c ∧ s = b ++ some ',' :: c

/-- The texts of the items of an array, and the text from behind its opening bracket, or behind an
item, to its closing bracket. -/
inductive ItemTexts : Bool → List (List Symbol) → List Symbol → Prop
  | close {first : Bool} {b : List Symbol} (blank : Blank b) :
      ItemTexts first [] (b ++ [some ']'])
  | item {first : Bool} {l t s : List Symbol} {ts : List (List Symbol)} (lead : Lead first l)
      (starts : Starts t) (more : ItemTexts false ts s) :
      ItemTexts first (t :: ts) (l ++ (t ++ s))

/-- The keys and texts of the members of an object, and the text from behind its opening brace, or
behind a member, to its closing brace.  A key stands for the symbols behind its opening quote. -/
inductive MemberTexts {κ : Type} (Key : κ → List Symbol → Prop) :
    Bool → List (κ × List Symbol) → List Symbol → Prop
  | close {first : Bool} {b : List Symbol} (blank : Blank b) :
      MemberTexts Key first [] (b ++ [some '\x7d'])
  | member {first : Bool} {k : κ} {l q c b t s : List Symbol} {ms : List (κ × List Symbol)}
      (lead : Lead first l) (key : Key k q) (behind : Blank c) (before : Blank b)
      (starts : Starts t) (more : MemberTexts Key false ms s) :
      MemberTexts Key first ((k, t) :: ms) (l ++ some '"' :: (q ++ (c ++ some ':' ::
        (b ++ (t ++ s)))))

variable {s rest b l t : List Symbol} {first : Bool}

/-! ## Blanks -/

theorem Blank.append (hs : Blank s) (ht : Blank t) : Blank (s ++ t) :=
  fun x hx => (List.mem_append.1 hx).elim (hs x) (ht x)

theorem blank_nil : Blank [] := fun _ h => absurd h List.not_mem_nil

theorem skipSpace_append (h : Blank b) (s : List Symbol) : skipSpace (b ++ s) = skipSpace s := by
  induction b with
  | nil => rfl
  | cons x b ih =>
      rcases List.forall_mem_cons.1 h with ⟨hx, hb⟩
      rw [← ih hb]
      simp [skipSpace, hx]

theorem exists_blank (s : List Symbol) : ∃ b, Blank b ∧ s = b ++ skipSpace s :=
  ⟨s.takeWhile isSpace, fun _ hx => List.mem_takeWhile_imp hx,
    List.takeWhile_append_dropWhile.symm⟩

theorem skipSpace_eq_nil_iff : skipSpace s = [] ↔ Blank s := List.dropWhile_eq_nil_iff

theorem Starts.skipSpace (h : Starts t) (rest : List Symbol) :
    Json.skipSpace (t ++ rest) = t ++ rest := by
  rcases h with ⟨x, more, rfl, hx, -⟩
  exact skipSpace_of_not_isSpace hx _

theorem exists_skipSpace {x : Symbol} {more : List Symbol} (h : skipSpace s = x :: more) :
    ∃ b, Blank b ∧ s = b ++ x :: more := by
  rcases exists_blank s with ⟨b, hb, hs⟩
  exact ⟨b, hb, by rw [hs, h]⟩

theorem Lead.append (h : Lead first l) (hb : Blank b) : Lead first (l ++ b) := by
  cases first with
  | true => exact Blank.append h hb
  | false =>
      rcases h with ⟨b', c, hb', hc, rfl⟩
      exact ⟨b', c ++ b, hb', hc.append hb, by simp⟩

open Numeral

theorem stops_of_isSpace {x : Symbol} (hx : isSpace x = true) (rest : List Symbol) :
    Stops (x :: rest) := by
  rintro _ ⟨⟩
  simp only [isSpace, Bool.or_eq_true, beq_iff_eq] at hx
  rcases hx with ((rfl | rfl) | rfl) | rfl <;> decide

theorem Blank.stops (h : Blank b) (hrest : Stops rest) : Stops (b ++ rest) := by
  cases b with
  | nil => exact hrest
  | cons x b => exact stops_of_isSpace (h x List.mem_cons_self) _

theorem Blank.stops_self (h : Blank b) : Stops b := by
  rw [← List.append_nil b]
  exact h.stops nofun

theorem stops_comma (rest : List Symbol) : Stops (some ',' :: rest) := by
  rintro _ ⟨⟩
  decide

theorem Lead.stops (h : Lead false l) (rest : List Symbol) : Stops (l ++ rest) := by
  rcases h with ⟨b, c, hb, -, rfl⟩
  rw [List.append_assoc]
  exact hb.stops (stops_comma _)

/-- A value ends where the next item or the closing bracket follows. -/
theorem ItemTexts.stops {ts : List (List Symbol)} (h : ItemTexts false ts s) (rest : List Symbol) :
    Stops (s ++ rest) := by
  cases h with
  | close blank =>
      rw [List.append_assoc]
      refine blank.stops ?_
      rintro _ ⟨⟩
      decide
  | item lead _ _ =>
      rw [List.append_assoc]
      exact lead.stops _

theorem MemberTexts.stops {κ : Type} {Key : κ → List Symbol → Prop} {ms : List (κ × List Symbol)}
    (h : MemberTexts Key false ms s) (rest : List Symbol) : Stops (s ++ rest) := by
  cases h with
  | close blank =>
      rw [List.append_assoc]
      refine blank.stops ?_
      rintro _ ⟨⟩
      decide
  | member lead _ _ _ _ _ =>
      rw [List.append_assoc]
      exact lead.stops _

theorem MemberTexts.stops_self {κ : Type} {Key : κ → List Symbol → Prop}
    {ms : List (κ × List Symbol)} (h : MemberTexts Key false ms s) : Stops s := by
  rw [← List.append_nil s]
  exact h.stops []

/-! ## The next item and the next key -/

theorem nextItem_comma {more : List Symbol} (h : skipSpace s = some ',' :: more) :
    nextItem false s =
      match skipSpace more with
      | [] => .error .endInValue
      | some ']' :: _ => .error .trailingComma
      | after => .ok (.item after) := by
  unfold nextItem
  rw [h]
  rfl

theorem nextKey_comma {more : List Symbol} (h : skipSpace s = some ',' :: more) :
    nextKey false s =
      match skipSpace more with
      | [] => .error .endInValue
      | some '\x7d' :: _ => .error .trailingComma
      | some '"' :: after => .ok (.item after)
      | _ => .error .textKeyWanted := by
  unfold nextKey
  rw [h]
  rfl

theorem skipSpace_comma (hb : Blank b) (rest : List Symbol) :
    skipSpace (b ++ some ',' :: rest) = some ',' :: rest := by
  rw [skipSpace_append hb, skipSpace_of_not_isSpace (by decide)]

theorem nextItem_item (hl : Lead first l) (ht : Starts t) (rest : List Symbol) :
    nextItem first (l ++ (t ++ rest)) = .ok (.item (t ++ rest)) := by
  have hskip := ht.skipSpace rest
  rcases ht with ⟨x, more, rfl, hx, hclose, hcomma⟩
  rw [List.cons_append] at hskip ⊢
  cases first with
  | true =>
      unfold nextItem
      rw [skipSpace_append hl, hskip]
      split
      · next heq => cases heq
      · next heq => exact absurd (List.cons.inj heq).1 hclose
      · next heq => exact absurd (List.cons.inj heq).1 hcomma
      · rfl
  | false =>
      rcases hl with ⟨b, c, hb, hc, rfl⟩
      rw [List.append_assoc, List.cons_append, nextItem_comma (skipSpace_comma hb _),
        skipSpace_append hc, hskip]
      split
      · next heq => cases heq
      · next heq => exact absurd (List.cons.inj heq).1 hclose
      · rfl

theorem nextItem_close (hb : Blank b) (rest : List Symbol) :
    nextItem first (b ++ some ']' :: rest) = .ok (.done rest) := by
  unfold nextItem
  rw [skipSpace_append hb, skipSpace_of_not_isSpace (by decide)]
  rfl

theorem exists_lead_item (h : nextItem first s = .ok (.item rest)) :
    ∃ l, Lead first l ∧ s = l ++ rest := by
  unfold nextItem at h
  split at h
  · cases h
  · cases h
  · next after hskip =>
      rcases exists_skipSpace hskip with ⟨b, hb, rfl⟩
      split at h
      · next hfirst =>
          cases h
          subst hfirst
          exact ⟨b, hb, rfl⟩
      · next hfirst =>
          obtain rfl : first = false := Bool.eq_false_iff.2 hfirst
          split at h
          · cases h
          · cases h
          · cases h
            rcases exists_blank after with ⟨c, hc, hafter⟩
            exact ⟨b ++ some ',' :: c, ⟨b, c, hb, hc, rfl⟩, by simpa using hafter⟩
  · split at h
    · next hfirst =>
        cases h
        subst hfirst
        exact exists_blank s
    · cases h

theorem exists_close_item (h : nextItem first s = .ok (.done rest)) :
    ∃ b, Blank b ∧ s = b ++ some ']' :: rest := by
  unfold nextItem at h
  split at h
  · cases h
  · next hskip =>
      cases h
      exact exists_skipSpace hskip
  · split at h
    · cases h
    · split at h <;> cases h
  · split at h <;> cases h

theorem nextKey_key (hl : Lead first l) (rest : List Symbol) :
    nextKey first (l ++ some '"' :: rest) = .ok (.item rest) := by
  cases first with
  | true =>
      unfold nextKey
      rw [skipSpace_append hl, skipSpace_of_not_isSpace (by decide)]
      rfl
  | false =>
      rcases hl with ⟨b, c, hb, hc, rfl⟩
      rw [List.append_assoc, List.cons_append, nextKey_comma (skipSpace_comma hb _),
        skipSpace_append hc, skipSpace_of_not_isSpace (by decide)]
      rfl

theorem nextKey_close (hb : Blank b) (rest : List Symbol) :
    nextKey first (b ++ some '\x7d' :: rest) = .ok (.done rest) := by
  unfold nextKey
  rw [skipSpace_append hb, skipSpace_of_not_isSpace (by decide)]
  rfl

theorem exists_lead_key (h : nextKey first s = .ok (.item rest)) :
    ∃ l, Lead first l ∧ s = l ++ some '"' :: rest := by
  unfold nextKey at h
  split at h
  · cases h
  · cases h
  · next hskip =>
      split at h
      · next hfirst =>
          cases h
          subst hfirst
          exact exists_skipSpace hskip
      · cases h
  · next after hskip =>
      rcases exists_skipSpace hskip with ⟨b, hb, rfl⟩
      split at h
      · cases h
      · next hfirst =>
          obtain rfl : first = false := Bool.eq_false_iff.2 hfirst
          split at h
          · cases h
          · cases h
          · next hkey =>
              cases h
              rcases exists_skipSpace hkey with ⟨c, hc, rfl⟩
              exact ⟨b ++ some ',' :: c, ⟨b, c, hb, hc, rfl⟩, by simp⟩
          · cases h
  · cases h

theorem exists_close_key (h : nextKey first s = .ok (.done rest)) :
    ∃ b, Blank b ∧ s = b ++ some '\x7d' :: rest := by
  unfold nextKey at h
  split at h
  · cases h
  · next hskip =>
      cases h
      exact exists_skipSpace hskip
  · split at h <;> cases h
  · split at h
    · cases h
    · split at h <;> cases h
  · cases h

theorem colon_append (hb : Blank b) (rest : List Symbol) :
    colon (b ++ some ':' :: rest) = .ok rest := by
  unfold colon
  rw [skipSpace_append hb, skipSpace_of_not_isSpace (by decide)]
  rfl

theorem exists_colon (h : colon s = .ok rest) : ∃ b, Blank b ∧ s = b ++ some ':' :: rest := by
  unfold colon at h
  split at h
  · next hskip =>
      cases h
      exact exists_skipSpace hskip
  · cases h
  · cases h

/-! ## Items -/

section Items

variable {α : Type} {read : Reader α} {T : List Symbol → α → Prop}

/-- Whether a reader takes exactly the texts of a form, behind blanks and where no number goes
on. -/
structure Exact (read : Reader α) (T : List Symbol → α → Prop) : Prop where
  starts {t : List Symbol} {a : α} : T t a → Starts t
  sound {s rest : List Symbol} {a : α} :
    read s = .ok (a, rest) → ∃ b t, Blank b ∧ T t a ∧ s = b ++ (t ++ rest)
  complete {t b rest : List Symbol} {a : α} :
    T t a → Blank b → Stops rest → read (b ++ (t ++ rest)) = .ok (a, rest)

/-- Gathers what is read, in reverse. -/
def gather (read : Reader α) (acc : List α) : Reader (List α) := fun s =>
  (read s).map fun r => (r.1 :: acc, r.2)

theorem ItemTexts.length_lt {ts : List (List Symbol)} (h : ItemTexts first ts s) :
    ts.length < s.length := by
  induction h with
  | close _ => simp
  | @item _ l t s ts _ starts _ ih =>
      rcases starts with ⟨x, more, rfl, -⟩
      simp only [List.length_append, List.length_cons]
      omega

theorem exists_itemTexts (hread : Exact read T) {rounds : Nat} {acc last : List α}
    (h : foldItems (gather read) rounds first acc s = .ok (last, rest)) :
    ∃ t ts values, ItemTexts first ts t ∧ List.Forall₂ T ts values ∧
      last = values.reverse ++ acc ∧ s = t ++ rest := by
  induction rounds generalizing first acc s with
  | zero => cases h
  | succ rounds ih =>
      rw [foldItems] at h
      split at h
      · cases h
      · next hnext =>
          cases h
          rcases exists_close_item hnext with ⟨b, hb, rfl⟩
          exact ⟨b ++ [some ']'], [], [], .close hb, .nil, rfl, by simp⟩
      · next hnext =>
          rcases exists_lead_item hnext with ⟨l, hl, rfl⟩
          split at h
          · cases h
          · next hitem =>
              rcases map_eq_ok_iff.1 hitem with ⟨⟨a, after⟩, ha, heq⟩
              cases heq
              rcases hread.sound ha with ⟨b, t, hb, ht, rfl⟩
              rcases ih h with ⟨t', ts, values, hts, hvalues, rfl, rfl⟩
              refine ⟨(l ++ b) ++ (t ++ t'), t :: ts, a :: values,
                .item (hl.append hb) (hread.starts ht) hts, .cons ht hvalues, ?_, by simp⟩
              simp

theorem foldItems_itemTexts (hread : Exact read T) {ts : List (List Symbol)} {values : List α}
    (h : ItemTexts first ts t) (hvalues : List.Forall₂ T ts values) {rounds : Nat}
    (hrounds : ts.length < rounds) (acc : List α) (rest : List Symbol) :
    foldItems (gather read) rounds first acc (t ++ rest) = .ok (values.reverse ++ acc, rest) := by
  induction h generalizing values rounds acc with
  | close blank =>
      cases hvalues
      cases rounds with
      | zero => exact absurd hrounds (Nat.not_lt_zero _)
      | succ rounds =>
          rw [foldItems, List.append_assoc, List.singleton_append, nextItem_close blank]
          rfl
  | @item first l t s ts lead starts more ih =>
      cases hvalues with
      | @cons _ a _ values ht hvalues =>
          cases rounds with
          | zero => exact absurd hrounds (Nat.not_lt_zero _)
          | succ rounds =>
              have hitem := hread.complete ht blank_nil (more.stops rest)
              have hlater := ih hvalues (Nat.lt_of_succ_lt_succ hrounds) (a :: acc)
              rw [foldItems, List.append_assoc, List.append_assoc, nextItem_item lead starts]
              dsimp only
              unfold gather at hlater ⊢
              rw [List.nil_append] at hitem
              rw [hitem]
              simpa [Except.map] using hlater

/-- The arrays that are read are those of texts that are read. -/
theorem items_eq_ok_iff (hread : Exact read T) {acc : List α} :
    items (gather read) [] s = .ok (acc, rest) ↔
      ∃ t ts, ItemTexts true ts t ∧ List.Forall₂ T ts acc.reverse ∧ s = t ++ rest := by
  constructor
  · intro h
    rcases exists_itemTexts hread h with ⟨t, ts, values, hts, hvalues, rfl, rfl⟩
    exact ⟨t, ts, hts, by simpa using hvalues, rfl⟩
  · rintro ⟨t, ts, hts, hvalues, rfl⟩
    have hlength := hts.length_lt
    have hrounds : ts.length < (t ++ rest).length + 1 := by
      rw [List.length_append]
      omega
    have hfold := foldItems_itemTexts hread hts hvalues hrounds [] rest
    rwa [List.reverse_reverse, List.append_nil] at hfold

end Items

/-! ## Members -/

section Members

variable {σ : Type} {member : σ → String → Reader σ} {M : σ → String → List Symbol → σ → Prop}

/-- Whether symbols spell a key. -/
def IsKey (key : String) (s : List Symbol) : Prop := Text.Spells key.toList s

/-- Whether a reader takes exactly the members of a form, from behind the key. -/
structure ExactMember (member : σ → String → Reader σ)
    (M : σ → String → List Symbol → σ → Prop) : Prop where
  sound {acc next : σ} {key : String} {s rest : List Symbol} :
    member acc key s = .ok (next, rest) → ∃ c b t, Blank c ∧ Blank b ∧ Starts t ∧
      M acc key t next ∧ s = c ++ some ':' :: (b ++ (t ++ rest))
  complete {acc next : σ} {key : String} {t c b rest : List Symbol} :
    M acc key t next → Blank c → Blank b → Stops rest →
      member acc key (c ++ some ':' :: (b ++ (t ++ rest))) = .ok (next, rest)

/-- What is gathered from members one after the other. -/
inductive Gathers (M : σ → String → List Symbol → σ → Prop) :
    σ → List (String × List Symbol) → σ → Prop
  | nil (acc : σ) : Gathers M acc [] acc
  | cons {acc next last : σ} {key : String} {t : List Symbol} {ms : List (String × List Symbol)}
      (head : M acc key t next) (tail : Gathers M next ms last) :
      Gathers M acc ((key, t) :: ms) last

theorem MemberTexts.length_lt {κ : Type} {Key : κ → List Symbol → Prop}
    {ms : List (κ × List Symbol)} (h : MemberTexts Key first ms s) : ms.length < s.length := by
  induction h with
  | close _ => simp
  | member _ _ _ _ _ _ ih =>
      simp only [List.length_append, List.length_cons]
      omega

theorem exists_memberTexts (hmember : ExactMember member M) {rounds : Nat} {acc last : σ}
    (h : foldMembers member rounds first acc s = .ok (last, rest)) :
    ∃ t ms, MemberTexts IsKey first ms t ∧ Gathers M acc ms last ∧ s = t ++ rest := by
  induction rounds generalizing first acc s with
  | zero => cases h
  | succ rounds ih =>
      rw [foldMembers] at h
      split at h
      · cases h
      · next hnext =>
          cases h
          rcases exists_close_key hnext with ⟨b, hb, rfl⟩
          exact ⟨b ++ [some '\x7d'], [], .close hb, .nil _, by simp⟩
      · next hnext =>
          rcases exists_lead_key hnext with ⟨l, hl, rfl⟩
          split at h
          · cases h
          · next hkey =>
              rcases Text.read_eq_ok_iff.1 hkey with ⟨q, rfl, hq⟩
              split at h
              · cases h
              · next hvalue =>
                  rcases hmember.sound hvalue with ⟨c, b, t, hc, hb, ht, hM, rfl⟩
                  rcases ih h with ⟨t', ms, hms, hlast, rfl⟩
                  exact ⟨_, _, .member hl hq hc hb ht hms, .cons hM hlast, by simp⟩

theorem foldMembers_memberTexts (hmember : ExactMember member M)
    {ms : List (String × List Symbol)} {acc last : σ} (h : MemberTexts IsKey first ms t)
    (hlast : Gathers M acc ms last) {rounds : Nat} (hrounds : ms.length < rounds)
    (rest : List Symbol) :
    foldMembers member rounds first acc (t ++ rest) = .ok (last, rest) := by
  induction h generalizing acc rounds with
  | close blank =>
      cases hlast
      cases rounds with
      | zero => exact absurd hrounds (Nat.not_lt_zero _)
      | succ rounds =>
          rw [foldMembers, List.append_assoc, List.singleton_append, nextKey_close blank]
  | @member first k l q c b t s ms lead key behind before starts more ih =>
      cases hlast with
      | cons head tail =>
          cases rounds with
          | zero => exact absurd hrounds (Nat.not_lt_zero _)
          | succ rounds =>
              have htext : l ++ some '"' :: (q ++ (c ++ some ':' :: (b ++ (t ++ s)))) ++ rest =
                  l ++ some '"' :: (q ++ (c ++ some ':' :: (b ++ (t ++ (s ++ rest))))) := by simp
              rw [htext, foldMembers, nextKey_key lead]
              dsimp only
              rw [Text.read_append key]
              dsimp only
              rw [hmember.complete head behind before (more.stops rest)]
              exact ih tail (Nat.lt_of_succ_lt_succ hrounds)

/-- The objects that are read are those of members that are read one after the other. -/
theorem members_eq_ok_iff (hmember : ExactMember member M) {start last : σ} :
    members member start s = .ok (last, rest) ↔
      ∃ t ms, MemberTexts IsKey true ms t ∧ Gathers M start ms last ∧ s = t ++ rest := by
  constructor
  · exact exists_memberTexts hmember
  · rintro ⟨t, ms, hms, hlast, rfl⟩
    have hlength := hms.length_lt
    refine foldMembers_memberTexts hmember hms hlast ?_ rest
    rw [List.length_append]
    omega

end Members

end Json

end FencedPool
