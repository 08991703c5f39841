import FencedPool.Proofs.Json.Strings

/-!
# Spelling — which symbols a string is read from

Behind its opening quote a string is a sequence of characters that stand for themselves and of
escapes, up to the closing quote.  A string that is read must spell characters; one that is passed
over need only have this form, so in it a half of a pair may stand alone and bytes may belong to no
character.

This file defines:

* `Json.Text.Spells` — that symbols spell a text and close it;
* `Json.Text.Quoted` — that symbols have the form of a string and close it.

The main statements are `Json.Text.read_eq_ok_iff` and `Json.Text.skip_eq_ok_iff`.
-/

namespace FencedPool

namespace Json

namespace Text

/-- Four hexadecimal digits with their value. -/
def Hex (s : List Symbol) (n : Nat) : Prop :=
  ∃ a b c d, s.map hexValue? = [some a, some b, some c, some d] ∧
    n = ((a * 16 + b) * 16 + c) * 16 + d

/-- What may stand behind a backslash, with the character it is read as: a letter, a code that is no
half of a pair, or both halves. -/
inductive Escape : Char → List Symbol → Prop
  | letter {l c : Char} (h : letterEscape? l = some c) : Escape c [some l]
  | code {s : List Symbol} {n : Nat} (hex : Hex s n) (htrailing : isTrailing n = false)
      (hleading : isLeading n = false) : Escape (Char.ofNat n) (some 'u' :: s)
  | pair {s s' : List Symbol} {n m : Nat} (hex : Hex s n) (hex' : Hex s' m)
      (hleading : isLeading n = true) (htrailing : isTrailing m = true) :
      Escape (paired n m) (some 'u' :: s ++ some '\\' :: some 'u' :: s')

/-- What may stand behind a backslash in a string that is passed over. -/
inductive LooseEscape : List Symbol → Prop
  | letter {l c : Char} (h : letterEscape? l = some c) : LooseEscape [some l]
  | code {s : List Symbol} {n : Nat} (hex : Hex s n) : LooseEscape (some 'u' :: s)

/-- Whether symbols spell a text, from behind its opening quote to its closing one. -/
inductive Spells : List Char → List Symbol → Prop
  | close : Spells [] [some '"']
  | plain {c : Char} {text : List Char} {s : List Symbol} (hquote : c ≠ '"') (hbackslash : c ≠ '\\')
      (hcontrol : ¬ c < ' ') (h : Spells text s) : Spells (c :: text) (some c :: s)
  | escape {c : Char} {text : List Char} {e s : List Symbol} (he : Escape c e)
      (h : Spells text s) : Spells (c :: text) (some '\\' :: e ++ s)

/-- Whether symbols have the form of a string, from behind its opening quote to its closing one. -/
inductive Quoted : List Symbol → Prop
  | close : Quoted [some '"']
  | plain {x : Symbol} {s : List Symbol} (hquote : x ≠ some '"') (hbackslash : x ≠ some '\\')
      (hcontrol : ∀ c, x = some c → ¬ c < ' ') (h : Quoted s) : Quoted (x :: s)
  | escape {e s : List Symbol} (he : LooseEscape e) (h : Quoted s) :
      Quoted (some '\\' :: e ++ s)

variable {s rest : List Symbol} {c : Char} {n : Nat}

/-! ## Escapes -/

theorem Hex.length (h : Hex s n) : s.length = 4 := by
  rcases h with ⟨a, b, c, d, hdigits, -⟩
  simpa using congrArg List.length hdigits

theorem mapM_hexValue? {digits : List Nat} (h : s.map hexValue? = digits.map some) :
    s.mapM hexValue? = some digits := by
  induction s generalizing digits with
  | nil =>
      obtain rfl : digits = [] := List.map_eq_nil_iff.1 h.symm
      rfl
  | cons x s ih =>
      cases digits with
      | nil => cases h
      | cons d digits =>
          rcases List.cons.inj h with ⟨hx, hs⟩
          rw [List.mapM_cons, hx, ih hs]
          rfl

theorem map_hexValue? {digits : List Nat} (h : s.mapM hexValue? = some digits) :
    s.map hexValue? = digits.map some := by
  induction s generalizing digits with
  | nil =>
      cases h
      rfl
  | cons x s ih =>
      rw [List.mapM_cons] at h
      cases hx : hexValue? x with
      | none =>
          rw [hx] at h
          cases h
      | some d =>
          cases hs : s.mapM hexValue? with
          | none =>
              rw [hx, hs] at h
              cases h
          | some more =>
              rw [hx, hs] at h
              cases h
              rw [List.map_cons, hx, ih hs, List.map_cons]

theorem fourHex_append (h : Hex s n) (rest : List Symbol) : fourHex (s ++ rest) = .ok n := by
  have hlength := h.length
  rcases h with ⟨a, b, c, d, hdigits, rfl⟩
  have hread : s.mapM hexValue? = some [a, b, c, d] := mapM_hexValue? hdigits
  unfold fourHex
  rw [← hlength, List.take_left, hread]

theorem exists_hex (h : fourHex s = .ok n) : ∃ t rest, s = t ++ rest ∧ Hex t n := by
  unfold fourHex at h
  split at h
  · next a b c d hdigits =>
      cases h
      exact ⟨s.take 4, s.drop 4, (List.take_append_drop 4 s).symm, a, b, c, d,
        map_hexValue? hdigits, rfl⟩
  · cases h

/-- An escape is read as its character and takes its symbols. -/
theorem escape_append {e : List Symbol} (h : Escape c e) (rest : List Symbol) :
    escape (e ++ rest) = .ok (c, e.length) := by
  cases h with
  | @letter l _ h =>
      have hu : l ≠ 'u' := by
        rintro rfl
        cases h
      change escape (some l :: rest) = _
      unfold escape
      split
      · next heq => cases heq
      · next heq =>
          cases heq
          exact absurd rfl hu
      · next heq =>
          cases heq
          rw [h]
          rfl
      · next heq => cases heq
  | @code s n hex htrailing hleading =>
      have hfour := fourHex_append hex rest
      have hlength := hex.length
      change (unicodeEscape (s ++ rest)).map _ = _
      unfold unicodeEscape
      rw [hfour]
      change Except.map _ (if isTrailing n = true then _ else _) = _
      rw [htrailing, hleading, List.length_cons, hlength]
      rfl
  | @pair s s' n m hex hex' hleading htrailing =>
      have hfour := fourHex_append hex (some '\\' :: some 'u' :: (s' ++ rest))
      have hfour' := fourHex_append hex' rest
      have hlength := hex.length
      have hlength' := hex'.length
      have hnot : isTrailing n = false := by
        simp only [isLeading, isTrailing, Bool.and_eq_true, Bool.and_eq_false_iff,
          decide_eq_true_eq, decide_eq_false_iff_not] at hleading ⊢
        omega
      have hdrop : (s ++ some '\\' :: some 'u' :: (s' ++ rest)).drop 4 =
          some '\\' :: some 'u' :: (s' ++ rest) := by rw [← hlength, List.drop_left]
      have htext : some 'u' :: s ++ some '\\' :: some 'u' :: s' ++ rest =
          some 'u' :: (s ++ some '\\' :: some 'u' :: (s' ++ rest)) := by simp
      rw [htext]
      change (unicodeEscape (s ++ some '\\' :: some 'u' :: (s' ++ rest))).map _ = _
      unfold unicodeEscape
      rw [hfour]
      change Except.map _ (if isTrailing n = true then _ else _) = _
      rw [hnot, hleading, hdrop]
      change Except.map _ ((fourHex (s' ++ rest)).bind _) = _
      rw [hfour']
      change Except.map _ (if isTrailing m = true then _ else _) = _
      rw [htrailing]
      simp [Except.map, hlength, hlength']

theorem exists_code (hcode : unicodeEscape s = .ok (c, n)) :
    ∃ e rest, s = e ++ rest ∧ e.length = n ∧ Escape c (some 'u' :: e) := by
  rcases bind_eq_ok_iff.1 hcode with ⟨first, hfirst, h⟩
  clear hcode
  rcases exists_hex hfirst with ⟨t, rest, rfl, hex⟩
  have hdrop : (t ++ rest).drop 4 = rest := by rw [← hex.length, List.drop_left]
  rw [hdrop] at h
  clear hfirst hdrop
  split at h
  · cases h
  · next htrailing =>
      split at h
      · next hleading =>
          split at h
          · cases h
          · cases h
          · rcases bind_eq_ok_iff.1 h with ⟨second, hsecond, hpair⟩
            rcases exists_hex hsecond with ⟨t', rest, rfl, hex'⟩
            split at hpair
            · next htrailing' =>
                obtain ⟨rfl, rfl⟩ := Prod.mk.inj (Except.ok.inj hpair)
                refine ⟨t ++ some '\\' :: some 'u' :: t', rest, by simp, ?_, ?_⟩
                · simp [hex.length, hex'.length]
                · exact .pair hex hex' hleading htrailing'
            · cases hpair
          · cases h
      · next hleading =>
          cases h
          exact ⟨t, rest, rfl, hex.length,
            .code hex (Bool.eq_false_iff.2 htrailing) (Bool.eq_false_iff.2 hleading)⟩

/-- Whatever is read as an escape is one. -/
theorem exists_escape (h : escape s = .ok (c, n)) :
    ∃ e rest, s = e ++ rest ∧ e.length = n ∧ Escape c e := by
  unfold escape at h
  split at h
  · cases h
  · next more =>
      rcases map_eq_ok_iff.1 h with ⟨⟨d, k⟩, hcode, heq⟩
      cases heq
      rcases exists_code hcode with ⟨e, rest, rfl, hlength, hescape⟩
      exact ⟨some 'u' :: e, rest, rfl, by rw [List.length_cons, hlength], hescape⟩
  · next l rest _ =>
      split at h
      · next hl =>
          cases h
          exact ⟨[some l], rest, rfl, rfl, .letter hl⟩
      · cases h
  · cases h

/-- A loose escape takes its symbols. -/
theorem skipEscape_append {e : List Symbol} (h : LooseEscape e) (rest : List Symbol) :
    skipEscape (e ++ rest) = .ok e.length := by
  cases h with
  | @letter l c h =>
      have hu : l ≠ 'u' := by
        rintro rfl
        cases h
      change skipEscape (some l :: rest) = _
      unfold skipEscape
      split
      · next heq => cases heq
      · next heq =>
          cases heq
          exact absurd rfl hu
      · next heq =>
          cases heq
          rw [h]
          rfl
      · next heq => cases heq
  | @code s n hex =>
      have hfour := fourHex_append hex rest
      change (fourHex (s ++ rest)).map _ = _
      rw [hfour, List.length_cons, hex.length]
      rfl

theorem exists_looseEscape (h : skipEscape s = .ok n) :
    ∃ e rest, s = e ++ rest ∧ e.length = n ∧ LooseEscape e := by
  unfold skipEscape at h
  split at h
  · cases h
  · next more =>
      rcases map_eq_ok_iff.1 h with ⟨code, hfour, rfl⟩
      rcases exists_hex hfour with ⟨t, rest, rfl, hex⟩
      exact ⟨some 'u' :: t, rest, rfl, by rw [List.length_cons, hex.length], .code hex⟩
  · next l rest _ =>
      split at h
      · next hl =>
          cases h
          rcases Option.isSome_iff_exists.1 hl with ⟨d, hd⟩
          exact ⟨[some l], rest, rfl, rfl, .letter hd⟩
      · cases h
  · cases h

/-! ## Reading -/

theorem body_taken {skipped : List Symbol} (rest : List Symbol) :
    body skipped.length (skipped ++ rest) = body 0 rest := by
  induction skipped with
  | nil => rfl
  | cons x skipped ih => exact ih

/-- What spells a text is read as its characters. -/
theorem body_of_spells {text : List Char} (h : Spells text s) (rest : List Symbol) :
    body 0 (s ++ rest) = .ok (text.map some, rest) := by
  induction h with
  | close => rfl
  | @plain c text s hquote hbackslash hcontrol h ih =>
      rw [List.cons_append, body, if_neg hcontrol, ih]
      · rfl
      · exact hquote
      · exact hbackslash
  | @escape c text e s he h ih =>
      have hescape := escape_append he (s ++ rest)
      have htext : some '\\' :: e ++ s ++ rest = some '\\' :: (e ++ (s ++ rest)) := by simp
      rw [htext, body, hescape]
      dsimp only
      rw [body_taken, ih]
      rfl

theorem spelled?_cons {x : Symbol} {more : List Symbol} {text : List Char}
    (h : Utf8.spelled? (x :: more) = some text) :
    ∃ c rest, x = some c ∧ text = c :: rest ∧ Utf8.spelled? more = some rest := by
  cases x with
  | none => cases h
  | some c =>
      rcases Option.map_eq_some_iff.1 h with ⟨rest, hrest, rfl⟩
      exact ⟨c, rest, rfl, rfl, hrest⟩

/-- Whatever is read as a text spells it. -/
theorem exists_spells {content : List Symbol} {text : List Char}
    (h : body 0 s = .ok (content, rest)) (htext : Utf8.spelled? content = some text) :
    ∃ t, s = t ++ rest ∧ Spells text t := by
  -- on the length of what is left, as an escape takes more than one symbol
  induction hlength : s.length using Nat.strongRecOn generalizing s content text with
  | ind length ih =>
      subst hlength
      unfold body at h
      split at h
      · cases h
      · next hzero => cases hzero
      · cases h
        cases htext
        exact ⟨[some '"'], rfl, .close⟩
      · split at h
        · cases h
        · next c n hescape =>
            rcases exists_escape hescape with ⟨e, more, rfl, rfl, he⟩
            rcases map_eq_ok_iff.1 h with ⟨⟨inner, after⟩, hbody, heq⟩
            cases heq
            rcases spelled?_cons htext with ⟨_, chars, ⟨⟩, rfl, hchars⟩
            rw [body_taken] at hbody
            have hshorter : more.length < (some '\\' :: (e ++ more)).length := by
              simp only [List.length_cons, List.length_append]
              omega
            rcases ih _ hshorter hbody hchars rfl with ⟨t, rfl, ht⟩
            exact ⟨some '\\' :: e ++ t, by simp, .escape he ht⟩
      · next c more hquote hbackslash _ =>
          split at h
          · cases h
          · next hcontrol =>
              rcases map_eq_ok_iff.1 h with ⟨⟨inner, after⟩, hbody, heq⟩
              cases heq
              rcases spelled?_cons htext with ⟨_, chars, ⟨⟩, rfl, hchars⟩
              rcases ih _ (Nat.lt_succ_self _) hbody hchars rfl with ⟨t, rfl, ht⟩
              exact ⟨some c :: t, rfl, .plain hquote hbackslash hcontrol ht⟩
      · rcases map_eq_ok_iff.1 h with ⟨⟨inner, after⟩, hbody, heq⟩
        cases heq
        cases htext

/-- A string is read exactly when what follows its opening quote spells it. -/
theorem read_eq_ok_iff {text : String} :
    read s = .ok (text, rest) ↔ ∃ t, s = t ++ rest ∧ Spells text.toList t := by
  constructor
  · intro h
    unfold read at h
    split at h
    · cases h
    · next hbody =>
        split at h
        · next htext =>
            cases h
            rw [String.toList_ofList]
            exact exists_spells hbody htext
        · cases h
  · rintro ⟨t, rfl, ht⟩
    unfold read
    rw [body_of_spells ht]
    dsimp only
    rw [Utf8.spelled?_map_some]
    dsimp only
    rw [String.ofList_toList]

theorem read_append {text : String} {t : List Symbol} (h : Spells text.toList t)
    (rest : List Symbol) : read (t ++ rest) = .ok (text, rest) :=
  read_eq_ok_iff.2 ⟨t, rfl, h⟩

/-! ## Passing over -/

/-- What spells a text has the form of a string. -/
theorem Spells.quoted {text : List Char} (h : Spells text s) : Quoted s := by
  induction h with
  | close => exact .close
  | plain hquote hbackslash hcontrol _ ih =>
      exact .plain (fun heq => hquote (Option.some.inj heq))
        (fun heq => hbackslash (Option.some.inj heq))
        (fun _ heq => Option.some.inj heq ▸ hcontrol) ih
  | escape he _ ih =>
      cases he with
      | letter h => exact .escape (.letter h) ih
      | code hex _ _ => exact .escape (.code hex) ih
      | @pair s s' _ _ hex hex' _ _ =>
          -- each half of the pair is an escape of its own
          have hboth := Quoted.escape (.code hex) (Quoted.escape (.code hex') ih)
          simpa using hboth

theorem skipBody_taken {skipped : List Symbol} (rest : List Symbol) :
    skipBody skipped.length (skipped ++ rest) = skipBody 0 rest := by
  induction skipped with
  | nil => rfl
  | cons x skipped ih => exact ih

theorem skipBody_of_quoted (h : Quoted s) (rest : List Symbol) :
    skipBody 0 (s ++ rest) = .ok rest := by
  induction h with
  | close => rfl
  | @plain x s hquote hbackslash hcontrol h ih =>
      cases x with
      | none => exact ih
      | some c =>
          rw [List.cons_append, skipBody, if_neg (hcontrol c rfl), ih]
          · exact fun heq => hquote (congrArg some heq)
          · exact fun heq => hbackslash (congrArg some heq)
  | @escape e s he h ih =>
      have hescape := skipEscape_append he (s ++ rest)
      have htext : some '\\' :: e ++ s ++ rest = some '\\' :: (e ++ (s ++ rest)) := by simp
      rw [htext, skipBody, hescape]
      dsimp only
      rw [skipBody_taken, ih]

theorem exists_quoted (h : skipBody 0 s = .ok rest) : ∃ t, s = t ++ rest ∧ Quoted t := by
  induction hlength : s.length using Nat.strongRecOn generalizing s with
  | ind length ih =>
      subst hlength
      unfold skipBody at h
      split at h
      · cases h
      · next hzero => cases hzero
      · cases h
        exact ⟨[some '"'], rfl, .close⟩
      · split at h
        · cases h
        · next n hescape =>
            rcases exists_looseEscape hescape with ⟨e, more, rfl, rfl, he⟩
            rw [skipBody_taken] at h
            have hshorter : more.length < (some '\\' :: (e ++ more)).length := by
              simp only [List.length_cons, List.length_append]
              omega
            rcases ih _ hshorter h rfl with ⟨t, rfl, ht⟩
            exact ⟨some '\\' :: e ++ t, by simp, .escape he ht⟩
      · next c more hquote hbackslash _ =>
          split at h
          · cases h
          · next hcontrol =>
              rcases ih _ (Nat.lt_succ_self _) h rfl with ⟨t, rfl, ht⟩
              refine ⟨some c :: t, rfl, .plain ?_ ?_ ?_ ht⟩
              · exact fun heq => hquote (Option.some.inj heq)
              · exact fun heq => hbackslash (Option.some.inj heq)
              · rintro _ ⟨⟩
                exact hcontrol
      · next more =>
          rcases ih _ (Nat.lt_succ_self _) h rfl with ⟨t, rfl, ht⟩
          exact ⟨none :: t, rfl, .plain nofun nofun nofun ht⟩

/-- A string is passed over exactly when what follows its opening quote has the form of one. -/
theorem skip_eq_ok_iff : skip s = .ok rest ↔ ∃ t, s = t ++ rest ∧ Quoted t := by
  constructor
  · exact exists_quoted
  · rintro ⟨t, rfl, ht⟩
    exact skipBody_of_quoted ht rest

end Text

end Json

end FencedPool
