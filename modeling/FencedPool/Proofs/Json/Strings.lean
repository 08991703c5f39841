import FencedPool.Json.Field
import FencedPool.Proofs.Text.Utf8

/-!
# Strings — a string is read back from between its quotes

Every character of a string is written as itself or as an escape, and neither looks like a closing
quote.  So a reader that stands behind the opening quote takes the characters one by one and stops
at the quote that the writer has put at the end.

The main statements are `Json.Text.read_written` and `Json.Field.text_render`.
-/

namespace FencedPool

namespace Json

/-! ## Steps of a reader -/

section Steps

variable {ε α β : Type} {r : Except ε α} {b : β}

theorem map_eq_ok_iff {f : α → β} : r.map f = .ok b ↔ ∃ a, r = .ok a ∧ f a = b := by
  cases r with
  | error e => exact ⟨nofun, nofun⟩
  | ok a =>
      constructor
      · exact fun h => ⟨a, rfl, Except.ok.inj h⟩
      · rintro ⟨_, ⟨⟩, rfl⟩
        rfl

theorem bind_eq_ok_iff {f : α → Except ε β} : r.bind f = .ok b ↔ ∃ a, r = .ok a ∧ f a = .ok b := by
  cases r with
  | error e => exact ⟨nofun, nofun⟩
  | ok a =>
      constructor
      · exact fun h => ⟨a, rfl, h⟩
      · rintro ⟨_, ⟨⟩, h⟩
        exact h

end Steps

namespace Text

/-! ## Escapes -/

theorem hexValue?_hexDigit : ∀ n < 16, hexValue? (some (hexDigit n)) = some n := by decide

theorem fourHex_hexDigits {a b c d : Nat} (ha : a < 16) (hb : b < 16) (hc : c < 16) (hd : d < 16)
    (rest : List Symbol) :
    fourHex (some (hexDigit a) :: some (hexDigit b) :: some (hexDigit c) :: some (hexDigit d) ::
      rest) = .ok (((a * 16 + b) * 16 + c) * 16 + d) := by
  simp [fourHex, hexValue?_hexDigit a ha, hexValue?_hexDigit b hb, hexValue?_hexDigit c hc,
    hexValue?_hexDigit d hd]

/-- The escape of a control character stands for it. -/
theorem escape_control {c : Char} (hc : c < ' ') (rest : List Symbol) :
    escape (some 'u' :: some '0' :: some '0' :: some (hexDigit (c.toNat / 16)) ::
      some (hexDigit (c.toNat % 16)) :: rest) = .ok (c, 5) := by
  have hlt : c.toNat < 32 := hc
  have hfour := fourHex_hexDigits (a := 0) (b := 0) (c := c.toNat / 16) (d := c.toNat % 16)
    (by decide) (by decide) (by omega) (by omega) rest
  have hvalue : ((0 * 16 + 0) * 16 + c.toNat / 16) * 16 + c.toNat % 16 = c.toNat := by omega
  have htrailing : isTrailing c.toNat = false := by
    simp only [isTrailing, Bool.and_eq_false_iff, decide_eq_false_iff_not]
    omega
  have hleading : isLeading c.toNat = false := by
    simp only [isLeading, Bool.and_eq_false_iff, decide_eq_false_iff_not]
    omega
  rw [hvalue] at hfour
  change (unicodeEscape (some (hexDigit 0) :: some (hexDigit 0) ::
    some (hexDigit (c.toNat / 16)) :: some (hexDigit (c.toNat % 16)) :: rest)).map _ = _
  unfold unicodeEscape
  rw [hfour]
  change Except.map _ (if isTrailing c.toNat = true then _ else _) = _
  rw [htrailing, hleading, Char.ofNat_toNat]
  rfl

/-! ## Reading -/

/-- A reader takes what is written for one character. -/
theorem body_escaped (c : Char) (rest : List Symbol) :
    body 0 ((escaped c).map some ++ rest) =
      (body 0 rest).map fun r => (some c :: r.1, r.2) := by
  unfold escaped
  -- the named escapes come first, and most characters stand for themselves
  by_cases hquote : c = '"'
  · rw [if_pos hquote, hquote]
    rfl
  by_cases hbackslash : c = '\\'
  · rw [if_neg hquote, if_pos hbackslash, hbackslash]
    rfl
  rw [if_neg hquote, if_neg hbackslash]
  by_cases hb : c = '\x08'
  · rw [if_pos hb, hb]
    rfl
  by_cases hf : c = '\x0c'
  · rw [if_neg hb, if_pos hf, hf]
    rfl
  rw [if_neg hb, if_neg hf]
  by_cases hn : c = '\n'
  · rw [if_pos hn, hn]
    rfl
  by_cases hr : c = '\r'
  · rw [if_neg hn, if_pos hr, hr]
    rfl
  rw [if_neg hn, if_neg hr]
  by_cases ht : c = '\t'
  · rw [if_pos ht, ht]
    rfl
  rw [if_neg ht]
  by_cases hcontrol : c < ' '
  · rw [if_pos hcontrol]
    have hescape := escape_control hcontrol rest
    simp only [List.map_cons, List.map_nil, List.cons_append, List.nil_append, body, hescape]
  · rw [if_neg hcontrol]
    simp only [List.map_cons, List.map_nil, List.cons_append, List.nil_append]
    rw [body]
    · rw [if_neg hcontrol]
    · exact hquote
    · exact hbackslash

/-- The characters up to the closing quote. -/
theorem body_written (text : List Char) (rest : List Symbol) :
    body 0 ((text.flatMap escaped ++ ['"']).map some ++ rest) = .ok (text.map some, rest) := by
  induction text with
  | nil => rfl
  | cons c text ih =>
      rw [List.flatMap_cons, List.append_assoc, List.map_append, List.append_assoc, body_escaped,
        ih]
      rfl

/-- A string is read back from behind its opening quote. -/
theorem read_written (s : String) (rest : List Symbol) :
    read ((s.toList.flatMap escaped ++ ['"']).map some ++ rest) = .ok (s, rest) := by
  unfold read
  rw [body_written]
  dsimp only
  rw [Utf8.spelled?_map_some]
  dsimp only
  rw [String.ofList_toList]

end Text

namespace Field

/-- A string is read back as a field. -/
theorem text_render (s : String) (rest : List Symbol) :
    text ((Text.render s).map some ++ rest) = .ok (s, rest) :=
  Text.read_written s rest

end Field

end Json

end FencedPool
