import FencedPool.Text.Utf8

/-!
# Utf8 — the bytes of a text give the text back

The first byte of a character announces how many bytes it has, and all of them together carry its
number.  So a reader that stands at the first byte of a character takes exactly that character, and
reading the bytes of a text never meets a stray byte.

The main statement is `Utf8.symbols_encode`.
-/

namespace FencedPool

namespace Utf8

/-! ## One character -/

theorem toNat_toUInt8 {n : Nat} (h : n < 0x100) : n.toUInt8.toNat = n := by
  rw [Nat.toUInt8, UInt8.toNat_ofNat']
  exact Nat.mod_eq_of_lt h

theorem announced_toUInt8 {n : Nat} (h : n < 0x100) :
    announced n.toUInt8 =
      if n < 0x80 then 1 else if n < 0xE0 then 2 else if n < 0xF0 then 3 else 4 := by
  unfold announced
  simp only [UInt8.lt_iff_toNat_lt, toNat_toUInt8 h]
  rfl

theorem toNat_lt (c : Char) : c.toNat < 0x110000 := by
  rcases c.valid with h | ⟨-, h⟩
  · exact Nat.lt_trans h (by decide)
  · exact h

/-- The first byte of a character announces the others, and all of them carry its number. -/
theorem encodeChar_eq (c : Char) :
    ∃ lead more, encodeChar c = lead :: more ∧ announced lead = more.length + 1 ∧
      carried (lead :: more) = c.toNat := by
  have hbound := toNat_lt c
  unfold encodeChar
  dsimp only
  generalize c.toNat = n at hbound
  -- one case for each number of bytes
  by_cases h1 : n < 0x80
  · rw [if_pos h1]
    refine ⟨_, _, rfl, ?_, ?_⟩
    · rw [announced_toUInt8 (by omega), if_pos h1]
      rfl
    · exact toNat_toUInt8 (by omega)
  rw [if_neg h1]
  by_cases h2 : n < 0x800
  · rw [if_pos h2]
    refine ⟨_, _, rfl, ?_, ?_⟩
    · rw [announced_toUInt8 (by omega), if_neg (by omega), if_pos (by omega)]
      rfl
    · simp (disch := omega) only [carried, toNat_toUInt8]
      omega
  rw [if_neg h2]
  by_cases h3 : n < 0x10000
  · rw [if_pos h3]
    refine ⟨_, _, rfl, ?_, ?_⟩
    · rw [announced_toUInt8 (by omega), if_neg (by omega), if_neg (by omega), if_pos (by omega)]
      rfl
    · simp (disch := omega) only [carried, toNat_toUInt8]
      omega
  · rw [if_neg h3]
    refine ⟨_, _, rfl, ?_, ?_⟩
    · rw [announced_toUInt8 (by omega), if_neg (by omega), if_neg (by omega), if_neg (by omega)]
      rfl
    · simp (disch := omega) only [carried, toNat_toUInt8]
      omega

/-! ## Texts -/

theorem symbolsAfter_append (skipped rest : Bytes) :
    symbolsAfter skipped.length (skipped ++ rest) = symbolsAfter 0 rest := by
  induction skipped with
  | nil => rfl
  | cons b skipped ih => exact ih

/-- A reader takes the bytes of one character. -/
theorem symbols_encodeChar (c : Char) (rest : Bytes) :
    symbols (encodeChar c ++ rest) = some c :: symbols rest := by
  rcases encodeChar_eq c with ⟨lead, more, hbytes, hannounced, hcarried⟩
  have hunit : lead :: (more ++ rest).take (announced lead - 1) = lead :: more := by
    rw [hannounced, Nat.add_sub_cancel, List.take_left]
  have hhead : head? lead (more ++ rest) = some c := by
    unfold head?
    dsimp only
    rw [hunit, hcarried, Char.ofNat_toNat, if_pos hbytes]
  unfold symbols
  rw [hbytes, List.cons_append, symbolsAfter, hhead]
  dsimp only
  rw [hannounced, Nat.add_sub_cancel, symbolsAfter_append]

/-- The bytes of a text are read as its characters. -/
theorem symbols_encode (text : List Char) : symbols (encode text) = text.map some := by
  induction text with
  | nil => rfl
  | cons c rest ih =>
      unfold encode at ih ⊢
      rw [List.flatMap_cons, symbols_encodeChar, ih, List.map_cons]

theorem spelled?_map_some (text : List Char) : spelled? (text.map some) = some text := by
  induction text with
  | nil => rfl
  | cons c rest ih => rw [List.map_cons, spelled?, ih, Option.map_some]

/-- Every text is read back from its bytes. -/
theorem decode?_bytes (text : String) : decode? (bytes text) = some text := by
  unfold decode? bytes
  rw [symbols_encode, spelled?_map_some, Option.map_some, String.ofList_toList]

end Utf8

end FencedPool
