import FencedPool.Proofs.Text.Digits
import FencedPool.Proofs.Toml.Strings
import FencedPool.Toml.Reader

/-!
# Lines — a document of single pairs is read back line by line

The simplest documents have a key without dots or quotes and a value on each line, and no headers.
Strings and numbers end where their line does, also strings that are written over several lines, so
such a document is read pair by pair, and the pairs come out in the order in which they stand.

This file defines:

* `IsWritten` — the texts that are read as a value when a line break follows;
* `IsBare` — the keys that are written without quotes;
* `Setting` — a key and a value with its text, and `Setting.line`, the line for it.

The main statement is `parse_settings`.
-/

namespace FencedPool

namespace Toml

/-- Whether a text is read as a value when the line ends behind it. -/
structure IsWritten (text : List Char) (v : Value) : Prop where
  notBlank : ∀ c ∈ text.head?, isSpace c = false
  isRead : ∀ inner rest, readValue (inner + 1) (text ++ '\n' :: rest) = some (v, '\n' :: rest)

/-! ## Strings -/

/-- What begins with neither a bracket nor a letter is a string, a moment or a number. -/
theorem readValue_of_head {c : Char} (hc : c ≠ '[' ∧ c ≠ '\x7b' ∧ c ≠ 't' ∧ c ≠ 'f')
    (inner : Nat) (rest : List Char) : readValue (inner + 1) (c :: rest) =
      match Text.read (c :: rest) with
      | some (text, rest) => some (.text text, rest)
      | none =>
          match Moment.read (c :: rest) with
          | some r => some r
          | none => Number.read (c :: rest) := by
  rcases hc with ⟨hbracket, hbrace, ht, hf⟩
  unfold readValue
  split
  · next h => exact absurd (List.cons.inj h).1 hbracket
  · next h => exact absurd (List.cons.inj h).1 hbrace
  · next h => exact absurd (List.cons.inj h).1 ht
  · next h => exact absurd (List.cons.inj h).1 hf
  · rfl

theorem isWritten_render (s : String) : IsWritten (Text.render s) (.text s) := by
  have hhead : ∃ q more, Text.isQuote q = true ∧ Text.render s = q :: more := by
    obtain ⟨form, text, hquote, -, hrender⟩ := Text.exists_spelled s
    rw [hrender]
    unfold Text.Form.enclose Text.Form.delimiter
    cases form.multiLine with
    | true => exact ⟨form.quote, _, hquote, rfl⟩
    | false => exact ⟨form.quote, _, hquote, rfl⟩
  obtain ⟨q, more, hquote, hrender⟩ := hhead
  have hq : q = Text.escaping ∨ q = Text.literal := by simpa [Text.isQuote] using hquote
  constructor
  · intro c hc
    rw [hrender] at hc
    cases hc
    rcases hq with rfl | rfl <;> rfl
  · intro inner rest
    have hread : Text.read (Text.render s ++ '\n' :: rest) = some (s, '\n' :: rest) := by
      refine Text.read_render s ?_
      rintro c ⟨⟩
      rfl
    rw [hrender] at hread ⊢
    -- a quote is neither a bracket nor a letter, so the text is tried as a string
    rw [List.cons_append, readValue_of_head, ← List.cons_append, hread]
    rcases hq with rfl | rfl <;> decide

/-! ## Numbers -/

variable {digits rest : List Char} {c : Char}

theorem ne_of_passes {test : Char → Bool} (hc : test c = true) {x : Char} (hx : test x = false) :
    c ≠ x := by
  rintro rfl
  rw [hc] at hx
  cases hx

theorem isSpace_eq_false (hblank : c ≠ ' ') (htab : c ≠ '\t') : isSpace c = false := by
  simp [isSpace, hblank, htab]

theorem isQuote_eq_false (hescaping : c ≠ Text.escaping) (hliteral : c ≠ Text.literal) :
    Text.isQuote c = false := by
  simp [Text.isQuote, hescaping, hliteral]

/-- Whether all characters are decimal digits. -/
def AllDigits (digits : List Char) : Prop := ∀ c ∈ digits, c.isDigit = true

/-- A line of digits goes on with a digit or ends. -/
theorem AllDigits.head_ne (h : AllDigits digits) (hc : c.isDigit = false) (hbreak : c ≠ '\n')
    {after : List Char} : digits ++ '\n' :: rest ≠ c :: after := by
  intro hcons
  cases digits with
  | nil => exact hbreak (List.cons.inj hcons).1.symm
  | cons x more => exact ne_of_passes (h x List.mem_cons_self) hc (List.cons.inj hcons).1

namespace Number

theorem digit?_of_isDigit (h : c.isDigit = true) : digit? 10 c = some (c.toNat - '0'.toNat) := by
  rcases Text.digit_bounds h with ⟨hlow, hhigh⟩
  have hdigit : '0' ≤ c ∧ c ≤ '9' := ⟨hlow, hhigh⟩
  have hsmall : c.toNat - '0'.toNat < 10 := by
    change c.toNat - 48 < 10
    omega
  unfold digit? hexValue?
  rw [if_pos hdigit]
  simpa using hsmall

theorem spanDigits_line (h : AllDigits digits) (rest : List Char) :
    spanDigits 10 (digits ++ '\n' :: rest) =
      (digits.map fun c => c.toNat - '0'.toNat, '\n' :: rest) := by
  induction digits with
  | nil => rfl
  | cons c digits ih =>
      have hc : c ≠ '_' := ne_of_passes (h c List.mem_cons_self) rfl
      have hdigit := digit?_of_isDigit (h c List.mem_cons_self)
      have hmore := ih fun x hx => h x (List.mem_cons_of_mem c hx)
      rw [List.cons_append, spanDigits, hdigit]
      · dsimp only
        rw [hmore]
        rfl
      · intro x more hcons _
        exact hc hcons

theorem allDigits_toDigits (n : Nat) : AllDigits (Nat.toDigits 10 n) := fun _ hc =>
  Nat.isDigit_of_mem_toDigits (by decide) (by decide) hc

theorem exists_toDigits (n : Nat) : ∃ c more, Nat.toDigits 10 n = c :: more ∧
    c.isDigit = true ∧ AllDigits more := by
  have hdigits := allDigits_toDigits n
  cases htext : Nat.toDigits 10 n with
  | nil => exact absurd htext Nat.toDigits_ne_nil
  | cons c more =>
      rw [htext] at hdigits
      rcases List.forall_mem_cons.1 hdigits with ⟨hc, hmore⟩
      exact ⟨c, more, rfl, hc, hmore⟩

/-- A decimal without a leading zero is read up to the end of its line. -/
theorem whole?_toDigits (n : Nat) (rest : List Char) :
    whole? (Nat.toDigits 10 n ++ '\n' :: rest) =
      some ((Nat.toDigits 10 n).map fun c => c.toNat - '0'.toNat, '\n' :: rest) := by
  rcases Nat.eq_zero_or_pos n with rfl | hpos
  · rfl
  obtain ⟨c, more, htext, hc, hmore⟩ := exists_toDigits n
  -- a zero in front would be taken alone
  have hzero : c ≠ '0' := by
    rintro rfl
    exact Text.toDigits_head hpos htext rfl
  rw [htext, List.cons_append, whole?, digits?, digit?_of_isDigit hc, spanDigits_line hmore]
  · rfl
  · intro more h
    exact hzero (List.cons.inj h).1

theorem integer?_natCast {n : Nat} (hn : n < Power.two 63) : integer? n = some (.integer n) := by
  have hlow : -(Power.two 63 : Int) ≤ n :=
    Int.le_trans (Int.neg_nonpos_of_nonneg (Int.natCast_nonneg _)) (Int.natCast_nonneg n)
  exact if_pos ⟨hlow, Int.ofNat_lt.2 hn⟩

theorem readDecimal_toDigits {n : Nat} (hn : n < Power.two 63) (rest : List Char) :
    readDecimal false (Nat.toDigits 10 n ++ '\n' :: rest) = some (.integer n, '\n' :: rest) := by
  have hvalue : valueOf 10 ((Nat.toDigits 10 n).map fun c => c.toNat - '0'.toNat) = n :=
    Text.foldl_toDigits n
  have hfraction : fraction? ('\n' :: rest) = some ([], '\n' :: rest) := rfl
  have hexponent : exponent? ('\n' :: rest) = some (none, '\n' :: rest) := rfl
  unfold readDecimal
  rw [whole?_toDigits, Option.bind_eq_bind, Option.bind_some]
  dsimp only
  rw [hfraction, Option.bind_eq_bind, Option.bind_some]
  dsimp only
  rw [hexponent, Option.bind_eq_bind, Option.bind_some]
  dsimp only
  rw [if_pos (And.intro rfl rfl), if_neg Bool.false_ne_true, hvalue, integer?_natCast hn]
  rfl

theorem read_toDigits {n : Nat} (hn : n < Power.two 63) (rest : List Char) :
    read (Nat.toDigits 10 n ++ '\n' :: rest) = some (.integer n, '\n' :: rest) := by
  have hdigits := allDigits_toDigits n
  have hsecond : ∀ {c x after}, x.isDigit = false → x ≠ '\n' →
      Nat.toDigits 10 n ++ '\n' :: rest ≠ c :: x :: after := by
    intro c x after hx hbreak h
    obtain ⟨d, more, htext, -, hmore⟩ := exists_toDigits n
    rw [htext] at h
    exact hmore.head_ne hx hbreak (List.cons.inj h).2
  have hhead : ∀ {x after}, x.isDigit = false → x ≠ '\n' →
      Nat.toDigits 10 n ++ '\n' :: rest ≠ x :: after := fun hx hbreak => hdigits.head_ne hx hbreak
  have hdecimal := readDecimal_toDigits hn rest
  generalize Nat.toDigits 10 n ++ '\n' :: rest = s at hsecond hhead hdecimal ⊢
  have hsign : sign s = (false, s) := by
    unfold sign
    split
    · exact absurd rfl (hhead rfl (by decide))
    · exact absurd rfl (hhead rfl (by decide))
    · rfl
  unfold read
  split
  -- no letter that tells the base stands behind the first digit
  · exact absurd rfl (hsecond rfl (by decide))
  · exact absurd rfl (hsecond rfl (by decide))
  · exact absurd rfl (hsecond rfl (by decide))
  · rw [hsign]
    dsimp only
    split
    · exact absurd rfl (hhead rfl (by decide))
    · exact absurd rfl (hhead rfl (by decide))
    · exact hdecimal

end Number

/-! Digits alone are no date and no time, as a dash or a colon is missing between them. -/

namespace Moment

/-- Two digits are taken from digits only. -/
theorem exists_two? (hdigits : AllDigits digits) {low high n : Nat} {s : List Char}
    (h : two? low high (digits ++ '\n' :: rest) = some (n, s)) :
    ∃ more, AllDigits more ∧ s = more ++ '\n' :: rest := by
  have hbreak : Number.digit? 10 '\n' = none := rfl
  match digits with
  | [] =>
      cases rest with
      | nil => cases h
      | cons c rest => simp [two?, hbreak] at h
  | [c] => simp [two?, hbreak] at h
  | c :: d :: more =>
      refine ⟨more, fun x hx => hdigits x (List.mem_cons_of_mem c (List.mem_cons_of_mem d hx)), ?_⟩
      simp only [List.cons_append, two?, Option.bind_eq_bind, Option.bind_eq_some_iff] at h
      rcases h with ⟨_, -, _, -, h⟩
      split at h
      · cases h
        rfl
      · cases h

/-- Behind digits at the end of a line there is no other character. -/
theorem char?_line (hdigits : AllDigits digits) (hc : c.isDigit = false) (hbreak : c ≠ '\n') :
    char? c (digits ++ '\n' :: rest) = none := by
  unfold char?
  split
  · next x after h =>
      refine if_neg ?_
      rintro rfl
      exact hdigits.head_ne hc hbreak h
  · rfl

theorem date?_line (hdigits : AllDigits digits) : date? (digits ++ '\n' :: rest) = none := by
  unfold date?
  cases hcentury : two? 0 99 (digits ++ '\n' :: rest) with
  | none => rfl
  | some century =>
      rcases exists_two? hdigits hcentury with ⟨more, hmore, htext⟩
      dsimp only [Option.bind_eq_bind, Option.bind_some]
      rw [htext]
      cases hyear : two? 0 99 (more ++ '\n' :: rest) with
      | none => rfl
      | some year =>
          rcases exists_two? hmore hyear with ⟨last, hlast, htext⟩
          dsimp only [Option.bind_some]
          rw [htext, char?_line hlast rfl (by decide)]
          rfl

theorem time?_line (hdigits : AllDigits digits) : time? (digits ++ '\n' :: rest) = none := by
  unfold time?
  cases hhour : two? 0 23 (digits ++ '\n' :: rest) with
  | none => rfl
  | some hour =>
      rcases exists_two? hdigits hhour with ⟨more, hmore, htext⟩
      dsimp only [Option.bind_eq_bind, Option.bind_some]
      rw [htext, char?_line hmore rfl (by decide)]
      rfl

theorem read_line (hdigits : AllDigits digits) (rest : List Char) :
    read (digits ++ '\n' :: rest) = none := by
  rw [read, date?_line hdigits, time?_line hdigits]
  rfl

end Moment

theorem isWritten_toDigits {n : Nat} (hn : n < Power.two 63) :
    IsWritten (Nat.toDigits 10 n) (.integer n) := by
  obtain ⟨c, more, htext, hdigit, -⟩ := Number.exists_toDigits n
  have hc : ∀ {x : Char}, x.isDigit = false → c ≠ x := ne_of_passes hdigit
  constructor
  · rw [htext]
    rintro c ⟨⟩
    exact isSpace_eq_false (hc rfl) (hc rfl)
  · intro inner rest
    have hmoment := Moment.read_line (Number.allDigits_toDigits n) rest
    have hnumber := Number.read_toDigits hn rest
    have hquote : Text.isQuote c = false := isQuote_eq_false (hc rfl) (hc rfl)
    have hstring : Text.read (c :: (more ++ '\n' :: rest)) = none := by
      simp [Text.read, Text.readLine, hquote]
    rw [htext, List.cons_append] at hmoment hnumber ⊢
    rw [readValue_of_head ⟨hc rfl, hc rfl, hc rfl, hc rfl⟩, hstring, hmoment]
    exact hnumber

/-! ## Lines -/

/-- Whether a key is written as it is, without quotes. -/
structure IsBare (key : String) : Prop where
  notEmpty : key.toList ≠ []
  plain : ∀ c ∈ key.toList, isKeyChar c = true

/-- A key and its value, with the text of the value on a line. -/
structure Setting where
  key : String
  text : List Char
  value : Value
  isBare : IsBare key
  isWritten : IsWritten text value

namespace Setting

def line (s : Setting) : List Char := s.key.toList ++ ' ' :: '=' :: ' ' :: s.text ++ ['\n']

def entry (s : Setting) : String × Value := (s.key, s.value)

/-- A setting whose value is a string. -/
def ofText (key : String) (isBare : IsBare key) (s : String) : Setting :=
  ⟨key, Text.render s, .text s, isBare, isWritten_render s⟩

/-- A setting whose value is a number. -/
def ofNumber (key : String) (isBare : IsBare key) (n : Nat) (hn : n < Power.two 63) : Setting :=
  ⟨key, Nat.toDigits 10 n, .integer n, isBare, isWritten_toDigits hn⟩

variable (s : Setting)

theorem line_append (rest : List Char) : s.line ++ rest =
    s.key.toList ++ ' ' :: '=' :: ' ' :: (s.text ++ '\n' :: rest) := by
  simp [line]

theorem exists_key : ∃ c more, s.key.toList = c :: more ∧ isKeyChar c = true := by
  cases hkey : s.key.toList with
  | nil => exact absurd hkey s.isBare.notEmpty
  | cons c more => exact ⟨c, more, rfl, s.isBare.plain c (by rw [hkey]; exact List.mem_cons_self)⟩

theorem exists_line (rest : List Char) :
    ∃ c more, s.line ++ rest = c :: more ∧ isKeyChar c = true := by
  obtain ⟨c, more, hkey, hc⟩ := s.exists_key
  rw [line_append, hkey]
  exact ⟨c, _, rfl, hc⟩

/-- A line starts with its key and no blank. -/
theorem skipSpace_line (rest : List Char) : skipSpace (s.line ++ rest) = s.line ++ rest := by
  obtain ⟨c, more, hcons, hc⟩ := s.exists_line rest
  have hspace : isSpace c = false :=
    isSpace_eq_false (ne_of_passes hc rfl) (ne_of_passes hc rfl)
  rw [hcons, skipSpace, List.dropWhile_cons, hspace]
  rfl

theorem keyPart_line (rest : List Char) : keyPart (s.line ++ rest) =
    some (s.key, ' ' :: '=' :: ' ' :: (s.text ++ '\n' :: rest)) := by
  obtain ⟨c, more, hkey, hc⟩ := s.exists_key
  have hquote : Text.isQuote c = false :=
    isQuote_eq_false (ne_of_passes hc rfl) (ne_of_passes hc rfl)
  let after := ' ' :: '=' :: ' ' :: (s.text ++ '\n' :: rest)
  have hname : (s.key.toList ++ after).takeWhile isKeyChar = s.key.toList := by
    rw [List.takeWhile_append_of_pos s.isBare.plain]
    exact List.append_nil _
  have hafter : (s.key.toList ++ after).dropWhile isKeyChar = after :=
    List.dropWhile_append_of_pos s.isBare.plain
  have hcons : s.key.toList ++ after = c :: (more ++ after) := by rw [hkey, List.cons_append]
  rw [line_append, hcons, keyPart, hquote, if_neg Bool.false_ne_true, if_pos hc, ← hcons, hname,
    hafter, String.ofList_toList]

theorem place_line (rest : List Char) : place (s.line ++ rest) =
    some (⟨[], s.key⟩, '=' :: ' ' :: (s.text ++ '\n' :: rest)) := by
  have hparts : keyParts ((s.line ++ rest).length + 1) (s.line ++ rest) =
      some ([s.key], '=' :: ' ' :: (s.text ++ '\n' :: rest)) := by
    rw [keyParts, skipSpace_line, keyPart_line]
    rfl
  rw [place, hparts]
  rfl

theorem pair_line (rest : List Char) : pair (readValue maxDepth) (s.line ++ rest) =
    some ((⟨[], s.key⟩, s.value), '\n' :: rest) := by
  -- one blank stands behind the equals sign, and the value starts with none
  have hspace : skipSpace (' ' :: (s.text ++ '\n' :: rest)) = s.text ++ '\n' :: rest := by
    have hblank := s.isWritten.notBlank
    change skipSpace (s.text ++ '\n' :: rest) = _
    cases htext : s.text with
    | nil => rfl
    | cons c more =>
        rw [htext] at hblank
        rw [List.cons_append, skipSpace, List.dropWhile_cons, hblank c rfl]
        rfl
  have hvalue := s.isWritten.isRead 79 rest
  rw [pair, place_line, Option.bind_eq_bind, Option.bind_some]
  change ((readValue (79 + 1) (skipSpace (' ' :: (s.text ++ '\n' :: rest)))).bind fun r =>
    some ((Place.mk [] s.key, r.1), r.2)) = some _
  rw [hspace, hvalue]
  rfl

theorem read_line (rest : List Char) : Toml.line (s.line ++ rest) =
    some (some (.pair (⟨[], s.key⟩, s.value)), rest) := by
  have hpair := s.pair_line rest
  obtain ⟨c, more, hcons, hc⟩ := s.exists_line rest
  rw [hcons] at hpair ⊢
  rw [Toml.line, hpair]
  · rfl
  all_goals
    intro more h
    exact absurd (List.cons.inj h).1 (ne_of_passes hc rfl)

end Setting

/-! ## Documents -/

variable {settings : List Setting}

theorem statements_lines {rounds : Nat} (hrounds : settings.length < rounds) :
    statements rounds (settings.flatMap Setting.line) =
      some (settings.map fun s => .pair (⟨[], s.key⟩, s.value)) := by
  induction settings generalizing rounds with
  | nil =>
      cases rounds with
      | zero => cases hrounds
      | succ rounds => rfl
  | cons s settings ih =>
      cases rounds with
      | zero => cases hrounds
      | succ rounds =>
          -- one round takes one line, also where its value goes over several
          have hrest := ih (Nat.lt_of_succ_lt_succ hrounds)
          have hline := s.read_line (settings.flatMap Setting.line)
          have hskip := s.skipSpace_line (settings.flatMap Setting.line)
          obtain ⟨c, more, hcons, -⟩ := s.exists_line (settings.flatMap Setting.line)
          rw [List.flatMap_cons, statements, hskip]
          rw [hcons] at hline ⊢
          dsimp only
          rw [hline, Option.bind_eq_bind, Option.bind_some, hrest]
          rfl

theorem sections_pairs (pairs : List (Place × Value)) :
    sections (pairs.map .pair) = (pairs, []) := by
  induction pairs with
  | nil => rfl
  | cons p pairs ih => rw [List.map_cons, sections, ih]

theorem Body.find?_eq_none {key : String} {entries : Body} (h : ∀ e ∈ entries, e.1 ≠ key) :
    find? key entries = none := by
  induction entries with
  | nil => rfl
  | cons e entries ih =>
      rw [find?, if_neg (h e List.mem_cons_self)]
      exact ih fun e' he' => h e' (List.mem_cons_of_mem e he')

/-- Keys that do not occur yet are added behind the others. -/
theorem addPairs?_fresh {entries pairs : Body} (hkeys : ((entries ++ pairs).map Prod.fst).Nodup) :
    addPairs? .line entries (pairs.map fun e => (⟨[], e.1⟩, e.2)) = some (entries ++ pairs) := by
  induction pairs generalizing entries with
  | nil =>
      rw [List.append_nil]
      rfl
  | cons e pairs ih =>
      have hfresh : Body.find? e.1 entries = none := by
        rw [List.map_append, List.nodup_append] at hkeys
        refine Body.find?_eq_none fun e' he' => ?_
        exact hkeys.2.2 e'.1 (List.mem_map_of_mem he') e.1 List.mem_cons_self
      have hadd : addPair? .line entries (⟨[], e.1⟩, e.2) = some (entries ++ [e]) := by
        refine if_pos ⟨.inl rfl, ?_⟩
        rw [hfresh]
        rfl
      -- the keys in front have become one more, and those behind one less
      have hrest : addPairs? .line (entries ++ [e]) (pairs.map fun e => (⟨[], e.1⟩, e.2)) =
          some (entries ++ [e] ++ pairs) := by
        refine ih ?_
        rwa [List.append_assoc, List.singleton_append]
      rw [List.append_assoc, List.singleton_append] at hrest
      rw [List.map_cons, addPairs?, List.foldlM_cons, hadd]
      exact hrest

theorem length_le_flatMap_line : settings.length ≤ (settings.flatMap Setting.line).length := by
  induction settings with
  | nil => exact Nat.le_refl 0
  | cons s settings ih =>
      have hline : 0 < s.line.length := by
        rw [Setting.line, List.length_append, List.length_singleton]
        omega
      rw [List.flatMap_cons, List.length_append, List.length_cons]
      omega

/-- A document of lines with different keys has their entries, in the order of the lines. -/
theorem parse_settings (hkeys : (settings.map Setting.key).Nodup) :
    parse (String.ofList (settings.flatMap Setting.line)) = some (settings.map Setting.entry) := by
  let s := settings.flatMap Setting.line
  -- the text starts with a key, or is empty
  have hmark : s.head? ≠ some byteOrderMark := by
    cases settings with
    | nil => exact nofun
    | cons first settings =>
        obtain ⟨c, more, hcons, hc⟩ := first.exists_line (settings.flatMap Setting.line)
        have hhead : s.head? = some c := congrArg List.head? hcons
        rw [hhead]
        exact fun h => ne_of_passes hc rfl (Option.some.inj h)
  have hstatements : statements (s.length + 1) s =
      some ((settings.map fun s => (Place.mk [] s.key, s.value)).map .pair) := by
    rw [statements_lines (Nat.lt_succ_of_le length_le_flatMap_line), List.map_map]
    rfl
  have hpairs : addPairs? .line [] (settings.map fun s => (Place.mk [] s.key, s.value)) =
      some (settings.map Setting.entry) := by
    have hentries : (([] ++ settings.map Setting.entry : Body).map Prod.fst).Nodup := by
      rw [List.nil_append, List.map_map]
      exact hkeys
    have hadded := addPairs?_fresh hentries
    rw [List.nil_append, List.map_map] at hadded
    exact hadded
  unfold parse
  rw [String.toList_ofList]
  dsimp only
  rw [if_neg hmark, hstatements, Option.bind_eq_bind, Option.bind_some, sections_pairs]
  dsimp only
  rw [build?, hpairs]
  rfl

end Toml

end FencedPool
