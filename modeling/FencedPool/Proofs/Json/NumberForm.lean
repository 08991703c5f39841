import FencedPool.Proofs.Json.Numerals
import FencedPool.Proofs.Json.Strings

/-!
# NumberForm — which symbols a number is read from

A number has integer digits, of which only a lone one may be zero at the front, then perhaps a point
with digits, then perhaps an exponent with digits.  It ends where its text does not go on with any
of these.  Passing over a number looks at this form alone; reading it looks at the digits as well,
and at nothing behind them.

This file defines `Json.Numeral.Written` — that symbols have the form of a number without its sign.

The main statements are `Json.Numeral.skip_append`, `Json.Numeral.exists_written` and
`Json.Numeral.read_local`.
-/

namespace FencedPool

namespace Json

namespace Numeral

/-- One digit or more. -/
def Digits (s : List Symbol) : Prop := ∃ ds, Spells s ds ∧ ds ≠ []

/-- Integer digits; a zero at the front stands alone. -/
def Whole (s : List Symbol) : Prop := ∃ ds, Spells s ds ∧ ds ≠ [] ∧ ∀ d more, ds ≠ 0 :: d :: more

def Fraction (s : List Symbol) : Prop := s = [] ∨ ∃ digits, Digits digits ∧ s = some '.' :: digits

/-- The digits of an exponent, with its sign if it has one. -/
def Signed (s : List Symbol) : Prop :=
  ∃ digits, Digits digits ∧ (s = digits ∨ s = some '+' :: digits ∨ s = some '-' :: digits)

def Exponent (s : List Symbol) : Prop :=
  s = [] ∨ ∃ more, Signed more ∧ (s = some 'e' :: more ∨ s = some 'E' :: more)

/-- Whether symbols have the form of a number without its sign. -/
def Written (s : List Symbol) : Prop :=
  ∃ whole fraction exponent, Whole whole ∧ Fraction fraction ∧ Exponent exponent ∧
    s = whole ++ (fraction ++ exponent)

variable {s rest : List Symbol}

/-! ## Digits -/

theorem exists_spells (s : List Symbol) :
    ∃ t, s = t ++ (spanDigits s).2 ∧ Spells t (spanDigits s).1 ∧ NoDigit (spanDigits s).2 := by
  induction s with
  | nil => exact ⟨[], rfl, rfl, nofun⟩
  | cons x s ih =>
      rw [spanDigits]
      split
      · next d hd =>
          rcases ih with ⟨t, hs, ht, hrest⟩
          refine ⟨x :: t, congrArg (x :: ·) hs, ?_, hrest⟩
          exact congrArg₂ List.cons hd ht
      · next hx =>
          refine ⟨[], rfl, rfl, ?_⟩
          rintro _ ⟨⟩
          exact hx

theorem Digits.head (h : Digits s) : ∃ x d more, s = x :: more ∧ digit? x = some d := by
  rcases h with ⟨ds, hs, hne⟩
  cases s with
  | nil => exact absurd (List.map_eq_nil_iff.1 hs.symm) hne
  | cons x more =>
      cases ds with
      | nil => exact absurd rfl hne
      | cons d ds => exact ⟨x, d, more, rfl, (List.cons.inj hs).1⟩

theorem Whole.digits (h : Whole s) : Digits s := by
  rcases h with ⟨ds, hs, hne, -⟩
  exact ⟨ds, hs, hne⟩

theorem noDigit_of_head {x : Symbol} {more : List Symbol} (hx : digit? x = none) :
    NoDigit (x :: more) := by
  rintro _ ⟨⟩
  exact hx

/-! ## Exponents -/

theorem exponentSign_of_digits (h : Digits s) (rest : List Symbol) :
    exponentSign (s ++ rest) = (false, s ++ rest) := by
  rcases h.head with ⟨x, d, more, rfl, hx⟩
  rw [List.cons_append]
  unfold exponentSign
  split
  · next heq =>
      cases heq
      cases hx
  · next heq =>
      cases heq
      cases hx
  · rfl

theorem skipExponent_append (h : Signed s) (hrest : NoDigit rest) :
    skipExponent (s ++ rest) = .ok rest := by
  rcases h with ⟨digits, hdigits, hs⟩
  have hsign : (exponentSign (s ++ rest)).2 = digits ++ rest := by
    rcases hs with rfl | rfl | rfl
    · rw [exponentSign_of_digits hdigits]
    · rfl
    · rfl
  rcases hdigits with ⟨ds, hspells, hne⟩
  unfold skipExponent
  rw [hsign, spanDigits_append hspells hrest]
  exact if_neg hne

theorem exists_sign (s : List Symbol) :
    ∃ sign, s = sign ++ (exponentSign s).2 ∧ (∀ digits, Digits digits → Signed (sign ++ digits)) ∧
      ∀ digits rest, Digits digits →
        exponentSign (sign ++ (digits ++ rest)) = ((exponentSign s).1, digits ++ rest) := by
  unfold exponentSign
  split
  · exact ⟨[some '+'], rfl, fun digits h => ⟨digits, h, .inr (.inl rfl)⟩, fun _ _ _ => rfl⟩
  · exact ⟨[some '-'], rfl, fun digits h => ⟨digits, h, .inr (.inr rfl)⟩, fun _ _ _ => rfl⟩
  · exact ⟨[], rfl, fun digits h => ⟨digits, h, .inl rfl⟩,
      fun _ _ h => exponentSign_of_digits h _⟩

theorem exists_signed (h : skipExponent s = .ok rest) : ∃ t, s = t ++ rest ∧ Signed t := by
  rcases exists_sign s with ⟨sign, hs, hsigned, -⟩
  rcases exists_spells (exponentSign s).2 with ⟨t, ht, hspells, -⟩
  unfold skipExponent at h
  dsimp only at h
  split at h
  · cases h
  · next hne =>
      cases h
      refine ⟨sign ++ t, ?_, hsigned t ⟨_, hspells, hne⟩⟩
      rw [List.append_assoc, ← ht]
      exact hs

/-- An exponent is read from its sign and digits alone. -/
theorem readExponent_local {negative : Bool} {significand : Nat} {e : Int} {n : Number}
    (h : readExponent negative significand e s = .ok (n, rest)) :
    ∃ t, s = t ++ rest ∧ Signed t ∧ ∀ rest', NoDigit rest' →
      readExponent negative significand e (t ++ rest') = .ok (n, rest') := by
  rcases exists_sign s with ⟨sign, hs, hsigned, hagain⟩
  rcases exists_spells (exponentSign s).2 with ⟨t, ht, hspells, -⟩
  unfold readExponent at h
  dsimp only at h
  split at h
  · cases h
  · next hne =>
      rcases map_eq_ok_iff.1 h with ⟨m, hm, heq⟩
      cases heq
      have hdigits : Digits t := ⟨_, hspells, hne⟩
      refine ⟨sign ++ t, ?_, hsigned t hdigits, fun rest' hrest' => ?_⟩
      · rw [List.append_assoc, ← ht]
        exact hs
      · unfold readExponent
        rw [List.append_assoc, hagain t rest' hdigits]
        dsimp only
        rw [spanDigits_append hspells hrest']
        dsimp only
        rw [if_neg hne, hm]
        rfl

theorem exponentMark_eq_some {after : List Symbol} (h : exponentMark s = some after) :
    s = some 'e' :: after ∨ s = some 'E' :: after := by
  unfold exponentMark at h
  split at h
  · cases h
    exact .inl rfl
  · cases h
    exact .inr rfl
  · cases h

theorem exponentMark_of_stops (h : Stops rest) : exponentMark rest = none := by
  cases hmark : exponentMark rest with
  | none => rfl
  | some after =>
      rcases exponentMark_eq_some hmark with rfl | rfl
      · exact absurd rfl (h _ rfl).2.2.1
      · exact absurd rfl (h _ rfl).2.2.2

theorem exists_mark {t after : List Symbol} (ht : Signed t)
    (hmark : exponentMark s = some (t ++ after)) :
    ∃ x, s = x :: (t ++ after) ∧ Exponent (x :: t) ∧
      ∀ more, exponentMark (x :: more) = some more := by
  rcases exponentMark_eq_some hmark with rfl | rfl
  · exact ⟨some 'e', rfl, .inr ⟨t, ht, .inl rfl⟩, fun _ => rfl⟩
  · exact ⟨some 'E', rfl, .inr ⟨t, ht, .inr rfl⟩, fun _ => rfl⟩

theorem Exponent.noDigit (h : Exponent s) (hrest : Stops rest) : NoDigit (s ++ rest) := by
  rcases h with rfl | ⟨more, -, rfl | rfl⟩
  · exact hrest.noDigit
  · exact noDigit_of_head rfl
  · exact noDigit_of_head rfl

theorem Fraction.noDigit (h : Fraction s) (hrest : NoDigit rest) : NoDigit (s ++ rest) := by
  rcases h with rfl | ⟨digits, -, rfl⟩
  · exact hrest
  · exact noDigit_of_head rfl

/-! ## Passing over -/

/-- What passing over a number does behind its point, or where there is none. -/
theorem exponent_append (h : Exponent s) (hrest : Stops rest) :
    (match exponentMark (s ++ rest) with
      | some after => skipExponent after
      | none => .ok (s ++ rest)) = .ok rest := by
  rcases h with rfl | ⟨more, hmore, rfl | rfl⟩
  · rw [List.nil_append, exponentMark_of_stops hrest]
  · exact skipExponent_append hmore hrest.noDigit
  · exact skipExponent_append hmore hrest.noDigit

theorem exists_exponent
    (h : (match exponentMark s with
      | some after => skipExponent after
      | none => .ok s) = .ok rest) : ∃ t, s = t ++ rest ∧ Exponent t := by
  split at h
  · next after hmark =>
      rcases exists_signed h with ⟨t, rfl, ht⟩
      rcases exponentMark_eq_some hmark with rfl | rfl
      · exact ⟨some 'e' :: t, rfl, .inr ⟨t, ht, .inl rfl⟩⟩
      · exact ⟨some 'E' :: t, rfl, .inr ⟨t, ht, .inr rfl⟩⟩
  · cases h
    exact ⟨[], rfl, .inl rfl⟩

/-- A number is passed over where its text does not go on with one. -/
theorem skip_append (h : Written s) (hrest : Stops rest) : skip (s ++ rest) = .ok rest := by
  rcases h with ⟨whole, fraction, exponent, ⟨ds, hwhole, hne, hzero⟩, hfraction, hexponent, rfl⟩
  have hafter := hfraction.noDigit (hexponent.noDigit hrest)
  unfold skip
  rw [List.append_assoc, List.append_assoc, spanDigits_append hwhole hafter]
  dsimp only
  split
  · exact absurd rfl hne
  · exact absurd rfl (hzero _ _)
  · rcases hfraction with rfl | ⟨digits, ⟨fs, hdigits, hfs⟩, rfl⟩
    · rw [List.nil_append]
      split
      · next more heq =>
          -- neither an exponent nor what follows begins with a point
          rcases hexponent with rfl | ⟨_, -, rfl | rfl⟩
          · rw [List.nil_append] at heq
            rw [heq] at hrest
            exact absurd rfl (hrest _ rfl).2.1
          · cases heq
          · cases heq
      · exact exponent_append hexponent hrest
    · have hspan := spanDigits_append hdigits (hexponent.noDigit hrest)
      have hpoint : some '.' :: digits ++ (exponent ++ rest) =
          some '.' :: (digits ++ (exponent ++ rest)) := rfl
      rw [hpoint]
      simp only [hspan, if_neg hfs]
      exact exponent_append hexponent hrest

/-- Whatever is passed over as a number has its form. -/
theorem exists_written (h : skip s = .ok rest) : ∃ t, s = t ++ rest ∧ Written t := by
  rcases exists_spells s with ⟨whole, hs, hspells, -⟩
  generalize hspan : spanDigits s = span at hs hspells
  unfold skip at h
  rw [hspan] at h
  dsimp only at h
  split at h
  · cases h
  · cases h
  · next hne hzero =>
      have hwhole : Whole whole := ⟨_, hspells, hne, hzero⟩
      split at h
      · next more hpoint =>
          rcases exists_spells more with ⟨digits, hmore, hdigits, -⟩
          split at h
          · cases h
          · next hfs =>
              rcases exists_exponent h with ⟨exponent, hafter, hexponent⟩
              refine ⟨whole ++ (some '.' :: digits ++ exponent), ?_, whole, some '.' :: digits,
                exponent, hwhole, .inr ⟨digits, ⟨_, hdigits, hfs⟩, rfl⟩, hexponent, rfl⟩
              rw [hs, hpoint, hmore, hafter]
              simp
      · rcases exists_exponent h with ⟨exponent, hafter, hexponent⟩
        refine ⟨whole ++ ([] ++ exponent), ?_, whole, [], exponent, hwhole, .inl rfl, hexponent,
          rfl⟩
        rw [hs, hafter]
        simp

/-! ## Reading -/

theorem readTail_point (negative : Bool) (significand carried : Nat) (s : List Symbol) :
    readTail negative significand carried (some '.' :: s) =
      if (spanDigits s).1 = [] then .error (digitWanted s)
      else
        match exponentMark (spanDigits s).2 with
        | some after =>
            readExponent negative (absorb significand (spanDigits s).1).1
              (carried - (((spanDigits s).1.length : Int) -
                (absorb significand (spanDigits s).1).2.length)) after
        | none =>
            (double negative (absorb significand (spanDigits s).1).1
              (carried - (((spanDigits s).1.length : Int) -
                (absorb significand (spanDigits s).1).2.length))).map (·, (spanDigits s).2) := rfl

theorem readTail_of_mark {negative : Bool} {significand carried : Nat} {after : List Symbol}
    (hpoint : ∀ more, s ≠ some '.' :: more) (hmark : exponentMark s = some after) :
    readTail negative significand carried s =
      readExponent negative significand carried after := by
  unfold readTail
  split
  · next more => exact absurd rfl (hpoint more)
  · rw [hmark]

/-- Without a fraction and an exponent nothing more is read. -/
theorem readTail_of_end {negative : Bool} {significand carried : Nat}
    (hpoint : ∀ more, s ≠ some '.' :: more) (hmark : exponentMark s = none) :
    readTail negative significand carried s =
      (if carried = 0 then Numeral.whole negative significand
        else double negative significand carried).map (·, s) := by
  unfold readTail
  split
  · next more => exact absurd rfl (hpoint more)
  · rw [hmark]
    dsimp only
    split
    · rfl
    · rfl

/-- What is read behind a point depends on the digits and the exponent alone. -/
theorem readTail_point_local {negative : Bool} {significand carried : Nat} {n : Number}
    {more : List Symbol}
    (h : readTail negative significand carried (some '.' :: more) = .ok (n, rest)) :
    ∃ digits exponent, more = digits ++ (exponent ++ rest) ∧ Fraction (some '.' :: digits) ∧
      Exponent exponent ∧ ∀ rest', Stops rest' →
        readTail negative significand carried (some '.' :: (digits ++ (exponent ++ rest'))) =
          .ok (n, rest') := by
  rcases exists_spells more with ⟨digits, hmore, hspells, -⟩
  rw [readTail_point] at h
  split at h
  · cases h
  · next hne =>
      have hfraction : Fraction (some '.' :: digits) := .inr ⟨digits, ⟨_, hspells, hne⟩, rfl⟩
      have hagain : ∀ {exponent rest' : List Symbol}, Exponent exponent → Stops rest' →
          spanDigits (digits ++ (exponent ++ rest')) =
            ((spanDigits more).1, exponent ++ rest') :=
        fun hexponent hrest' => spanDigits_append hspells (hexponent.noDigit hrest')
      split at h
      · next after hmark =>
          rcases readExponent_local h with ⟨t, rfl, ht, hlocal⟩
          rcases exists_mark ht hmark with ⟨x, hx, hexponent, hxmark⟩
          refine ⟨digits, x :: t, ?_, hfraction, hexponent, fun rest' hrest' => ?_⟩
          · rw [hmore, hx]
            rfl
          · rw [readTail_point, hagain hexponent hrest']
            dsimp only
            rw [if_neg hne, List.cons_append, hxmark]
            exact hlocal rest' hrest'.noDigit
      · next hmark =>
          rcases map_eq_ok_iff.1 h with ⟨m, hm, heq⟩
          cases heq
          refine ⟨digits, [], hmore, hfraction, .inl rfl, fun rest' hrest' => ?_⟩
          rw [readTail_point, hagain (.inl rfl) hrest']
          dsimp only
          rw [if_neg hne, List.nil_append, exponentMark_of_stops hrest', hm]
          rfl

/-- What is read behind the digits depends on the fraction and the exponent alone. -/
theorem readTail_local {negative : Bool} {significand carried : Nat} {n : Number}
    (h : readTail negative significand carried s = .ok (n, rest)) :
    ∃ fraction exponent, s = fraction ++ (exponent ++ rest) ∧ Fraction fraction ∧
      Exponent exponent ∧ ∀ rest', Stops rest' →
        readTail negative significand carried (fraction ++ (exponent ++ rest')) =
          .ok (n, rest') := by
  by_cases hfraction : ∃ more, s = some '.' :: more
  · rcases hfraction with ⟨more, rfl⟩
    rcases readTail_point_local h with ⟨digits, exponent, rfl, hdigits, hexponent, hlocal⟩
    exact ⟨some '.' :: digits, exponent, rfl, hdigits, hexponent, hlocal⟩
  · have hpoint : ∀ more, s ≠ some '.' :: more := fun more heq => hfraction ⟨more, heq⟩
    cases hmark : exponentMark s with
    | some after =>
        rw [readTail_of_mark hpoint hmark] at h
        rcases readExponent_local h with ⟨t, rfl, ht, hlocal⟩
        rcases exists_mark ht hmark with ⟨x, rfl, hexponent, hxmark⟩
        refine ⟨[], x :: t, rfl, .inl rfl, hexponent, fun rest' hrest' => ?_⟩
        have hfirst : x ≠ some '.' := fun heq => hpoint _ (congrArg (· :: _) heq)
        rw [List.nil_append, List.cons_append,
          readTail_of_mark (fun more heq => hfirst (List.cons.inj heq).1) (hxmark _)]
        exact hlocal rest' hrest'.noDigit
    | none =>
        rw [readTail_of_end hpoint hmark] at h
        rcases map_eq_ok_iff.1 h with ⟨m, hm, heq⟩
        cases heq
        refine ⟨[], [], rfl, .inl rfl, .inl rfl, fun rest' hrest' => ?_⟩
        have hend : ∀ more, rest' ≠ some '.' :: more := by
          rintro more rfl
          exact (hrest' _ rfl).2.1 rfl
        rw [List.nil_append, List.nil_append,
          readTail_of_end hend (exponentMark_of_stops hrest'), hm]
        rfl

/-- A number is read from its own symbols. -/
theorem read_local {negative : Bool} {n : Number} (h : read negative s = .ok (n, rest)) :
    ∃ t, s = t ++ rest ∧ Written t ∧ ∀ rest', Stops rest' →
      read negative (t ++ rest') = .ok (n, rest') := by
  rcases exists_spells s with ⟨whole, hs, hspells, -⟩
  generalize hspan : spanDigits s = span at hs hspells
  unfold read at h
  rw [hspan] at h
  dsimp only at h
  split at h
  · cases h
  · cases h
  · next hne hzero =>
      rcases readTail_local h with ⟨fraction, exponent, htail, hfraction, hexponent, hlocal⟩
      refine ⟨whole ++ (fraction ++ exponent), by rw [hs, htail]; simp,
        ⟨whole, fraction, exponent, ⟨_, hspells, hne, hzero⟩, hfraction, hexponent, rfl⟩,
        fun rest' hrest' => ?_⟩
      have hafter := hfraction.noDigit (hexponent.noDigit hrest')
      unfold read
      rw [List.append_assoc, List.append_assoc, spanDigits_append hspells hafter]
      dsimp only
      split
      · next heq => exact absurd heq hne
      · next heq => exact absurd heq (hzero _ _)
      · exact hlocal rest' hrest'

end Numeral

end Json

end FencedPool
