import FencedPool.Proofs.Json.Separated

/-!
# Skipping — which texts are passed over as values

A value that is passed over keeps the form of one: its words are spelt, its numbers and strings have
their form, and its brackets match.  The reader keeps a stack of the brackets that are open; the
text behind a value has to close all of them, each after what may still stand inside it.

This file defines:

* `Json.Form` — that symbols have the form of a value;
* `Json.Rests` — what has to follow a value inside open brackets.

The main statements are `Json.exists_form_of_skipValue` and `Json.skipValue_form`.
-/

namespace FencedPool

namespace Json

open Numeral (Stops Written)

/-- Whether symbols have the form of a word, a number or a string. -/
inductive Scalar : List Symbol → Prop
  | null : Scalar [some 'n', some 'u', some 'l', some 'l']
  | true : Scalar [some 't', some 'r', some 'u', some 'e']
  | false : Scalar [some 'f', some 'a', some 'l', some 's', some 'e']
  | negative {s : List Symbol} (h : Written s) : Scalar (some '-' :: s)
  | number {s : List Symbol} (h : Written s) : Scalar s
  | str {s : List Symbol} (h : Text.Quoted s) : Scalar (some '"' :: s)

/-- A key that is passed over stands for its own symbols. -/
def LooseKey (key s : List Symbol) : Prop := s = key ∧ Text.Quoted s

/-- Whether symbols have the form of a value. -/
inductive Form : List Symbol → Prop
  | scalar {s : List Symbol} (h : Scalar s) : Form s
  | list {ts : List (List Symbol)} {s : List Symbol} (h : ItemTexts true ts s)
      (items : ∀ t ∈ ts, Form t) : Form (some '[' :: s)
  | object {ms : List (List Symbol × List Symbol)} {s : List Symbol}
      (h : MemberTexts LooseKey true ms s) (values : ∀ m ∈ ms, Form m.2) :
      Form (some '\x7b' :: s)

/-- Whether symbols finish what stands inside a bracket, from behind the bracket or a value. -/
def Inside : Bracket → Bool → List Symbol → Prop
  | .list, first, s => ∃ ts, ItemTexts first ts s ∧ ∀ t ∈ ts, Form t
  | .object, first, s => ∃ ms, MemberTexts LooseKey first ms s ∧ ∀ m ∈ ms, Form m.2

/-- Whether symbols finish what stands inside all brackets that are open. -/
def Rests : Bool → List Bracket → List Symbol → Prop
  | _, [], s => s = []
  | first, b :: outer, s => ∃ t u, Inside b first t ∧ Rests false outer u ∧ s = t ++ u

/-- Whether symbols go on with a value inside all brackets that are open, or nothing is open. -/
def GoesOn : List Bracket → List Symbol → Prop
  | [], s => s = []
  | opened, s => ∃ b t u, Blank b ∧ Form t ∧ Rests false opened u ∧ s = b ++ (t ++ u)

variable {s rest b c l t : List Symbol} {first : Bool}

/-! ## Words, numbers and strings -/

theorem word_append (cs : List Char) (rest : List Symbol) :
    word cs (cs.map some ++ rest) = .ok rest := by
  induction cs with
  | nil => rfl
  | cons c cs ih => rw [List.map_cons, List.cons_append, word, if_pos rfl, ih]

theorem eq_of_word {cs : List Char} (h : word cs s = .ok rest) : s = cs.map some ++ rest := by
  induction cs generalizing s with
  | nil =>
      cases h
      rfl
  | cons c cs ih =>
      cases s with
      | nil => cases h
      | cons x s =>
          rw [word] at h
          split at h
          · next hx =>
              rw [ih h, hx]
              rfl
          · cases h

theorem digit_ne {x : Symbol} {d : Nat} (hx : Numeral.digit? x = some d) (c : Char)
    (hc : Numeral.digit? (some c) = none) : x ≠ some c := by
  rintro rfl
  rw [hc] at hx
  cases hx

theorem Written.head (h : Written s) : ∃ x d more, s = x :: more ∧ Numeral.digit? x = some d := by
  rcases h with ⟨whole, fraction, exponent, hwhole, -, -, rfl⟩
  rcases hwhole.digits.head with ⟨x, d, more, rfl, hx⟩
  exact ⟨x, d, more ++ (fraction ++ exponent), rfl, hx⟩

theorem starts_cons {x : Symbol} (hspace : isSpace x = false) (hclose : x ≠ some ']')
    (hcomma : x ≠ some ',') (more : List Symbol) : Starts (x :: more) :=
  ⟨x, more, rfl, hspace, hclose, hcomma⟩

theorem starts_digit {x : Symbol} {d : Nat} (hx : Numeral.digit? x = some d)
    (more : List Symbol) : Starts (x :: more) := by
  refine starts_cons ?_ (digit_ne hx ']' (by decide)) (digit_ne hx ',' (by decide)) more
  unfold isSpace
  simp only [Bool.or_eq_false_iff, beq_eq_false_iff_ne]
  exact ⟨⟨⟨digit_ne hx ' ' (by decide), digit_ne hx '\n' (by decide)⟩,
    digit_ne hx '\t' (by decide)⟩, digit_ne hx '\r' (by decide)⟩

theorem Scalar.starts (h : Scalar s) : Starts s := by
  cases h with
  | null => exact starts_cons (by decide) (by decide) (by decide) _
  | true => exact starts_cons (by decide) (by decide) (by decide) _
  | false => exact starts_cons (by decide) (by decide) (by decide) _
  | negative _ => exact starts_cons (by decide) (by decide) (by decide) _
  | number h =>
      rcases Written.head h with ⟨x, d, more, rfl, hx⟩
      exact starts_digit hx more
  | str _ => exact starts_cons (by decide) (by decide) (by decide) _

theorem Form.starts (h : Form s) : Starts s := by
  cases h with
  | scalar h => exact h.starts
  | list _ _ => exact starts_cons (by decide) (by decide) (by decide) _
  | object _ _ => exact starts_cons (by decide) (by decide) (by decide) _

theorem skipToken_digit {x : Symbol} {d : Nat} (hx : Numeral.digit? x = some d)
    (more : List Symbol) :
    skipToken (x :: more) = (Numeral.skip (x :: more)).map (none, ·) := by
  unfold skipToken
  split
  · next heq => cases heq
  · next heq => exact absurd (List.cons.inj heq).1 (digit_ne hx 'n' (by decide))
  · next heq => exact absurd (List.cons.inj heq).1 (digit_ne hx 't' (by decide))
  · next heq => exact absurd (List.cons.inj heq).1 (digit_ne hx 'f' (by decide))
  · next heq => exact absurd (List.cons.inj heq).1 (digit_ne hx '-' (by decide))
  · next heq => exact absurd (List.cons.inj heq).1 (digit_ne hx '"' (by decide))
  · next heq => exact absurd (List.cons.inj heq).1 (digit_ne hx '[' (by decide))
  · next heq => exact absurd (List.cons.inj heq).1 (digit_ne hx '\x7b' (by decide))
  · next heq =>
      cases heq
      rw [hx]
      rfl

theorem skipToken_scalar (h : Scalar s) (hrest : Stops rest) :
    skipToken (s ++ rest) = .ok (none, rest) := by
  cases h with
  | null => exact congrArg (Except.map (none, ·)) (word_append ['u', 'l', 'l'] rest)
  | true => exact congrArg (Except.map (none, ·)) (word_append ['r', 'u', 'e'] rest)
  | false => exact congrArg (Except.map (none, ·)) (word_append ['a', 'l', 's', 'e'] rest)
  | negative h => exact congrArg (Except.map (none, ·)) (Numeral.skip_append h hrest)
  | number h =>
      have hskip := Numeral.skip_append h hrest
      rcases Written.head h with ⟨x, d, more, rfl, hx⟩
      rw [List.cons_append] at hskip ⊢
      rw [skipToken_digit hx, hskip]
      rfl
  | str h => exact congrArg (Except.map (none, ·)) (Text.skip_eq_ok_iff.2 ⟨_, rfl, h⟩)

def Bracket.opening : Bracket → Char
  | .list => '['
  | .object => '\x7b'

/-- A token is a scalar or an opening bracket. -/
theorem exists_token {bracket : Option Bracket} (h : skipToken s = .ok (bracket, rest)) :
    (∃ t, bracket = none ∧ Scalar t ∧ s = t ++ rest) ∨
      ∃ b, bracket = some b ∧ s = some b.opening :: rest := by
  unfold skipToken at h
  split at h
  · cases h
  · rcases map_eq_ok_iff.1 h with ⟨_, hword, heq⟩
    cases heq
    exact .inl ⟨_, rfl, .null, congrArg _ (eq_of_word hword)⟩
  · rcases map_eq_ok_iff.1 h with ⟨_, hword, heq⟩
    cases heq
    exact .inl ⟨_, rfl, .true, congrArg _ (eq_of_word hword)⟩
  · rcases map_eq_ok_iff.1 h with ⟨_, hword, heq⟩
    cases heq
    exact .inl ⟨_, rfl, .false, congrArg _ (eq_of_word hword)⟩
  · rcases map_eq_ok_iff.1 h with ⟨_, hskip, heq⟩
    cases heq
    rcases Numeral.exists_written hskip with ⟨t, rfl, ht⟩
    exact .inl ⟨some '-' :: t, rfl, .negative ht, rfl⟩
  · rcases map_eq_ok_iff.1 h with ⟨_, hskip, heq⟩
    cases heq
    rcases Text.skip_eq_ok_iff.1 hskip with ⟨t, rfl, ht⟩
    exact .inl ⟨some '"' :: t, rfl, .str ht, rfl⟩
  · cases h
    exact .inr ⟨.list, rfl, rfl⟩
  · cases h
    exact .inr ⟨.object, rfl, rfl⟩
  · split at h
    · rcases map_eq_ok_iff.1 h with ⟨_, hskip, heq⟩
      cases heq
      rcases Numeral.exists_written hskip with ⟨t, ht', ht⟩
      exact .inl ⟨t, rfl, .number ht, ht'⟩
    · cases h

/-! ## From one value to the next -/

theorem skipKey_append (hb : Blank b) {q : List Symbol} (hq : Text.Quoted q) (hc : Blank c)
    (rest : List Symbol) :
    skipKey (b ++ some '"' :: (q ++ (c ++ some ':' :: rest))) = .ok rest := by
  have hskip : Text.skip (q ++ (c ++ some ':' :: rest)) = .ok (c ++ some ':' :: rest) :=
    Text.skip_eq_ok_iff.2 ⟨q, rfl, hq⟩
  unfold skipKey
  rw [skipSpace_append hb, skipSpace_of_not_isSpace (by decide)]
  simp only [hskip]
  exact colon_append hc rest

theorem exists_key (h : skipKey s = .ok rest) :
    ∃ b q c, Blank b ∧ Text.Quoted q ∧ Blank c ∧
      s = b ++ some '"' :: (q ++ (c ++ some ':' :: rest)) := by
  unfold skipKey at h
  split at h
  · cases h
  · next hspace =>
      split at h
      · cases h
      · next hskip =>
          rcases exists_skipSpace hspace with ⟨b, hb, rfl⟩
          rcases Text.skip_eq_ok_iff.1 hskip with ⟨q, rfl, hq⟩
          rcases exists_colon h with ⟨c, hc, rfl⟩
          exact ⟨b, q, c, hb, hq, hc, rfl⟩
  · cases h

theorem inside_close (bracket : Bracket) (hb : Blank b) :
    Inside bracket first (b ++ [some bracket.close]) := by
  cases bracket with
  | list => exact ⟨[], .close hb, nofun⟩
  | object => exact ⟨[], .close hb, nofun⟩

/-- What stands between a bracket or a value and the next value. -/
def Gap : Bracket → Bool → List Symbol → Prop
  | .list, first, s => Lead first s
  | .object, first, s => ∃ l q c, Lead first l ∧ Text.Quoted q ∧ Blank c ∧
      s = l ++ some '"' :: (q ++ (c ++ [some ':']))

theorem Inside.value {bracket : Bracket} {g : List Symbol} (hg : Gap bracket first g)
    (hb : Blank b) (ht : Form t) (hs : Inside bracket false s) :
    Inside bracket first (g ++ (b ++ (t ++ s))) := by
  cases bracket with
  | list =>
      rcases hs with ⟨ts, hts, hforms⟩
      refine ⟨t :: ts, ?_, List.forall_mem_cons.2 ⟨ht, hforms⟩⟩
      rw [← List.append_assoc]
      exact .item (Lead.append hg hb) ht.starts hts
  | object =>
      rcases hs with ⟨ms, hms, hforms⟩
      rcases hg with ⟨l, q, c, hl, hq, hc, rfl⟩
      refine ⟨(q, t) :: ms, ?_, List.forall_mem_cons.2 ⟨ht, hforms⟩⟩
      have htext : l ++ some '"' :: (q ++ (c ++ [some ':'])) ++ (b ++ (t ++ s)) =
          l ++ some '"' :: (q ++ (c ++ some ':' :: (b ++ (t ++ s)))) := by simp
      rw [htext]
      exact .member hl ⟨rfl, hq⟩ hc hb ht.starts hms

theorem Rests.value {bracket : Bracket} {outer : List Bracket} {g : List Symbol}
    (hg : Gap bracket first g) (h : GoesOn (bracket :: outer) s) :
    Rests first (bracket :: outer) (g ++ s) := by
  rcases h with ⟨b, t, _, hb, ht, ⟨u, v, hu, hv, rfl⟩, rfl⟩
  exact ⟨g ++ (b ++ (t ++ u)), v, hu.value hg hb ht, hv, by simp⟩

/-- What is passed over up to the next value lets the text go on there. -/
theorem exists_gap {comma : Bool} {opened inner : List Bracket}
    (h : skipToValue comma opened s = .ok (inner, rest)) :
    ∃ g, s = g ++ rest ∧ ∀ v, GoesOn inner v → Rests (!comma) opened (g ++ v) := by
  induction opened generalizing comma s with
  | nil =>
      cases h
      exact ⟨[], rfl, fun v hv => hv⟩
  | cons bracket outer ih =>
      -- where a value can follow, it does so behind its key
      have hready : ∀ {l more : List Symbol}, Lead (!comma) l →
          (match bracket with
            | .list => Except.ok (bracket :: outer, more)
            | .object => (skipKey more).map (bracket :: outer, ·)) = .ok (inner, rest) →
          ∃ g, l ++ more = g ++ rest ∧ ∀ v, GoesOn inner v →
            Rests (!comma) (bracket :: outer) (g ++ v) := by
        intro l more hl hmore
        cases bracket with
        | list =>
            cases hmore
            exact ⟨l, rfl, fun v hv => Rests.value (show Gap .list _ l from hl) hv⟩
        | object =>
            rcases map_eq_ok_iff.1 hmore with ⟨_, hkey, heq⟩
            cases heq
            rcases exists_key hkey with ⟨b, q, c, hb, hq, hc, rfl⟩
            refine ⟨(l ++ b) ++ some '"' :: (q ++ (c ++ [some ':'])), by simp, fun v hv => ?_⟩
            have hgap : Gap .object (!comma) (l ++ b ++ some '"' :: (q ++ (c ++ [some ':']))) :=
              ⟨l ++ b, q, c, hl.append hb, hq, hc, rfl⟩
            exact Rests.value hgap hv
      unfold skipToValue at h
      dsimp only at h
      split at h
      · cases h
      · next x more hspace =>
          rcases exists_skipSpace hspace with ⟨b, hb, rfl⟩
          split at h
          · next hclose =>
              subst hclose
              rcases ih h with ⟨g, rfl, hg⟩
              refine ⟨b ++ some bracket.close :: g, by simp, fun v hv => ?_⟩
              exact ⟨b ++ [some bracket.close], g ++ v, inside_close bracket hb, hg v hv, by simp⟩
          · split at h
            · next hcomma =>
                subst hcomma
                split at h
                · next hx =>
                    subst hx
                    have hlead : Lead false (b ++ [some ',']) := ⟨b, [], hb, blank_nil, rfl⟩
                    rcases hready hlead h with ⟨g, hg, hgoes⟩
                    exact ⟨g, by rw [← hg]; simp, hgoes⟩
                · cases h
            · next hcomma =>
                obtain rfl : comma = false := Bool.eq_false_iff.2 hcomma
                exact hready hb h

/-- The brackets that are open behind a token. -/
def openedBy (opened : List Bracket) : Option Bracket → List Bracket
  | some b => b :: opened
  | none => opened

/-- Whatever is passed over is a value, and what finishes the brackets that are open. -/
theorem exists_form {rounds : Nat} {opened : List Bracket}
    (h : skipOpen rounds opened s = .ok rest) :
    ∃ b t u, Blank b ∧ Form t ∧ Rests false opened u ∧ s = b ++ (t ++ (u ++ rest)) := by
  induction rounds generalizing opened s with
  | zero => cases h
  | succ rounds ih =>
      rw [skipOpen] at h
      split at h
      · cases h
      · next bracket after htoken =>
          rcases exists_blank s with ⟨b, hb, hs⟩
          have hrest : ∃ u, Rests (!bracket.isNone) (openedBy opened bracket) u ∧
              after = u ++ rest := by
            dsimp only at h
            split at h
            · cases h
            · next hgap =>
                cases h
                rcases exists_gap hgap with ⟨g, hg, hgoes⟩
                refine ⟨g, ?_, hg⟩
                have hrests := hgoes [] rfl
                rwa [List.append_nil] at hrests
            · next hgap =>
                rcases exists_gap hgap with ⟨g, rfl, hgoes⟩
                rcases ih h with ⟨b', t', u', hb', ht', hu', rfl⟩
                exact ⟨g ++ (b' ++ (t' ++ u')), hgoes _ ⟨b', t', u', hb', ht', hu', rfl⟩, by simp⟩
          rcases hrest with ⟨u, hu, rfl⟩
          rcases exists_token htoken with ⟨t, rfl, ht, heq⟩ | ⟨bracket, rfl, heq⟩
          · exact ⟨b, t, u, hb, .scalar ht, hu, by rw [hs, heq]⟩
          · -- the bracket is finished first, then those outside it
            rcases hu with ⟨t, u, ht, hu, rfl⟩
            refine ⟨b, some bracket.opening :: t, u, hb, ?_, hu, by rw [hs, heq]; simp⟩
            cases bracket with
            | list =>
                rcases ht with ⟨ts, hts, hforms⟩
                exact .list hts hforms
            | object =>
                rcases ht with ⟨ms, hms, hforms⟩
                exact .object hms hforms

/-- Whatever is passed over has the form of a value. -/
theorem exists_form_of_skipValue (h : skipValue s = .ok rest) :
    ∃ b t, Blank b ∧ Form t ∧ s = b ++ (t ++ rest) := by
  rcases exists_form h with ⟨b, t, u, hb, ht, rfl, rfl⟩
  exact ⟨b, t, hb, ht, by simp⟩

/-! ## A value is passed over -/

/-- How the reader goes on behind a value or an opening bracket. -/
def resume (rounds : Nat) (comma : Bool) (opened : List Bracket) (s : List Symbol) :
    Except Fault (List Symbol) :=
  match skipToValue comma opened s with
  | .error e => .error e
  | .ok ([], after) => .ok after
  | .ok (b :: outer, after) => skipOpen rounds (b :: outer) after

theorem skipOpen_succ (rounds : Nat) (opened : List Bracket) (s : List Symbol) :
    skipOpen (rounds + 1) opened s =
      match skipToken (skipSpace s) with
      | .error e => .error e
      | .ok (bracket, rest) =>
          resume rounds bracket.isNone (openedBy opened bracket) rest := rfl

variable {opened : List Bracket} {last : List Symbol} {rounds : Nat}

theorem skipToValue_list (opened : List Bracket) (hl : Lead first l) (ht : Starts t)
    (rest : List Symbol) :
    ∃ b, Blank b ∧ skipToValue (!first) (.list :: opened) (l ++ (t ++ rest)) =
      .ok (.list :: opened, b ++ (t ++ rest)) := by
  have hskip := ht.skipSpace rest
  rcases ht with ⟨x, more, rfl, -, hclose, -⟩
  rw [List.cons_append] at hskip ⊢
  cases first with
  | true =>
      refine ⟨[], blank_nil, ?_⟩
      rw [skipToValue, skipSpace_append hl, hskip]
      dsimp only
      rw [if_neg (show x ≠ some Bracket.list.close from hclose)]
      rfl
  | false =>
      rcases hl with ⟨b, c, hb, hc, rfl⟩
      refine ⟨c, hc, ?_⟩
      rw [List.append_assoc, List.cons_append, skipToValue, skipSpace_comma hb]
      rfl

theorem skipToValue_object (opened : List Bracket) (hl : Lead first l) {q : List Symbol}
    (hq : Text.Quoted q) (hc : Blank c) (rest : List Symbol) :
    skipToValue (!first) (.object :: opened) (l ++ some '"' :: (q ++ (c ++ some ':' :: rest))) =
      .ok (.object :: opened, rest) := by
  cases first with
  | true =>
      have hkey := skipKey_append blank_nil hq hc rest
      rw [skipToValue, skipSpace_append hl, skipSpace_of_not_isSpace (by decide)]
      exact congrArg (Except.map (Bracket.object :: opened, ·)) hkey
  | false =>
      rcases hl with ⟨b, b', hb, hb', rfl⟩
      have hkey := skipKey_append hb' hq hc rest
      rw [List.append_assoc, List.cons_append, skipToValue, skipSpace_comma hb]
      exact congrArg (Except.map (Bracket.object :: opened, ·)) hkey

theorem skipToValue_close (bracket : Bracket) (comma : Bool) (hb : Blank b)
    (rest : List Symbol) :
    skipToValue comma (bracket :: opened) (b ++ some bracket.close :: rest) =
      skipToValue true opened rest := by
  have hspace : isSpace (some bracket.close) = false := by cases bracket <;> decide
  rw [skipToValue.eq_def]
  dsimp only
  rw [skipSpace_append hb, skipSpace_of_not_isSpace hspace]
  exact if_pos rfl

theorem resume_close (bracket : Bracket) {comma : Bool} (hb : Blank b) (rest : List Symbol) :
    resume rounds comma (bracket :: opened) (b ++ some bracket.close :: rest) =
      resume rounds true opened rest := by
  unfold resume
  rw [skipToValue_close bracket comma hb]

/-- Whether a value is passed over inside any brackets, for some number of rounds. -/
def IsPassed (t : List Symbol) : Prop :=
  ∀ {opened : List Bracket} {b rest last : List Symbol} {rounds : Nat}, Blank b → Stops rest →
    resume rounds true opened rest = .ok last →
      ∃ more, skipOpen more opened (b ++ (t ++ rest)) = .ok last

theorem resume_items {ts : List (List Symbol)} (h : ItemTexts first ts s)
    (hts : ∀ t ∈ ts, IsPassed t) (hlast : resume rounds true opened rest = .ok last) :
    ∃ more, resume more (!first) (.list :: opened) (s ++ rest) = .ok last := by
  induction h with
  | @close first b blank =>
      refine ⟨rounds, ?_⟩
      rw [List.append_assoc]
      exact (resume_close .list blank rest).trans hlast
  | item lead starts more ih =>
      rcases List.forall_mem_cons.1 hts with ⟨ht, hts⟩
      rcases ih hts with ⟨rounds', hmore⟩
      rcases skipToValue_list opened lead starts (_ ++ rest) with ⟨b, hb, hgap⟩
      rcases ht hb (more.stops rest) hmore with ⟨rounds'', hvalue⟩
      refine ⟨rounds'', ?_⟩
      unfold resume
      rw [List.append_assoc, List.append_assoc, hgap]
      exact hvalue

theorem resume_members {ms : List (List Symbol × List Symbol)} (h : MemberTexts LooseKey first ms s)
    (hms : ∀ m ∈ ms, IsPassed m.2) (hlast : resume rounds true opened rest = .ok last) :
    ∃ more, resume more (!first) (.object :: opened) (s ++ rest) = .ok last := by
  induction h with
  | @close first b blank =>
      refine ⟨rounds, ?_⟩
      rw [List.append_assoc]
      exact (resume_close .object blank rest).trans hlast
  | @member first k l q c b t s ms lead key behind before starts more ih =>
      rcases List.forall_mem_cons.1 hms with ⟨ht, hms⟩
      rcases ih hms with ⟨rounds', hmore⟩
      have hgap := skipToValue_object opened lead key.2 behind (b ++ (t ++ (s ++ rest)))
      rcases ht before (more.stops rest) hmore with ⟨rounds'', hvalue⟩
      refine ⟨rounds'', ?_⟩
      have htext : l ++ some '"' :: (q ++ (c ++ some ':' :: (b ++ (t ++ s)))) ++ rest =
          l ++ some '"' :: (q ++ (c ++ some ':' :: (b ++ (t ++ (s ++ rest))))) := by simp
      unfold resume
      rw [htext, hgap]
      exact hvalue

/-- A value is passed over inside any brackets. -/
theorem Form.isPassed (h : Form t) : IsPassed t := by
  -- by the structure of the value; what stands inside its bracket is passed over with it
  induction h with
  | @scalar t h =>
      intro opened b rest last rounds hb hrest hlast
      refine ⟨rounds + 1, ?_⟩
      rw [skipOpen_succ, skipSpace_append hb, h.starts.skipSpace, skipToken_scalar h hrest]
      exact hlast
  | @list ts s h _ ih =>
      intro opened b rest last rounds hb hrest hlast
      rcases resume_items h ih hlast with ⟨more, hmore⟩
      refine ⟨more + 1, ?_⟩
      rw [skipOpen_succ, skipSpace_append hb, List.cons_append,
        skipSpace_of_not_isSpace (by decide)]
      exact hmore
  | @object ms s h _ ih =>
      intro opened b rest last rounds hb hrest hlast
      rcases resume_members h ih hlast with ⟨more, hmore⟩
      refine ⟨more + 1, ?_⟩
      rw [skipOpen_succ, skipSpace_append hb, List.cons_append,
        skipSpace_of_not_isSpace (by decide)]
      exact hmore

/-! ## The number of rounds -/

theorem length_of_token {bracket : Option Bracket}
    (h : skipToken (skipSpace s) = .ok (bracket, rest)) : rest.length < s.length := by
  rcases exists_blank s with ⟨b, -, hs⟩
  have hlength := congrArg List.length hs
  rcases exists_token h with ⟨t, -, ht, heq⟩ | ⟨bracket, -, heq⟩
  · rcases ht.starts with ⟨x, more, rfl, -⟩
    rw [heq] at hlength
    simp only [List.length_append, List.length_cons] at hlength
    omega
  · rw [heq] at hlength
    simp only [List.length_append, List.length_cons] at hlength
    omega

/-- As many rounds as symbols are enough. -/
theorem skipOpen_enough (h : skipOpen rounds opened s = .ok rest) {more : Nat}
    (hmore : s.length < more) : skipOpen more opened s = .ok rest := by
  induction rounds generalizing more opened s with
  | zero => cases h
  | succ rounds ih =>
      cases more with
      | zero => exact absurd hmore (Nat.not_lt_zero _)
      | succ more =>
          rw [skipOpen_succ] at h ⊢
          split at h
          · cases h
          · next bracket after htoken =>
              have htaken := length_of_token htoken
              unfold resume at h ⊢
              split at h
              · cases h
              · exact h
              · next hgap =>
                  rcases exists_gap hgap with ⟨g, rfl, -⟩
                  refine ih h ?_
                  simp only [List.length_append] at htaken
                  omega

/-- A text that has the form of a value is passed over. -/
theorem skipValue_form (h : Form t) (hb : Blank b) (hrest : Stops rest) :
    skipValue (b ++ (t ++ rest)) = .ok rest := by
  have hdone : resume 0 true [] rest = .ok rest := rfl
  rcases h.isPassed hb hrest hdone with ⟨rounds, hrounds⟩
  exact skipOpen_enough hrounds (Nat.lt_succ_self _)

end Json

end FencedPool
