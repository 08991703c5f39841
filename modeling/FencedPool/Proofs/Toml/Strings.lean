import FencedPool.Toml.Text

/-!
# Strings — a string is read back in whatever form it was written

A string that is written stands for its characters one by one: most for themselves, some by an
escape.  Quotes need more care.  On one line none may stand by itself, since it would end the
string; over several lines up to two in a row may, and if they are the last of the content, they
form one run with the three that close it.  A reader takes such a run at once.

This file defines:

* `Form.Takes` — the texts that stand for one character;
* `Form.Spells` — the texts that stand for a string, by the number of quotes just before them.

The main statement is `Text.read_render`.
-/

namespace FencedPool

namespace Toml

namespace Text

/-- Whether a text stands for a character, whatever follows. -/
def Form.Takes (form : Form) (c : Char) (text : List Char) : Prop :=
  ∃ head tail, text = head :: tail ∧ head ≠ form.quote ∧
    ∀ rest, form.piece head (tail ++ rest) = some (.content [c] tail.length)

/-- Whether a text stands for a string, given how many quotes stand in a row just before it. -/
inductive Form.Spells (form : Form) : Nat → List Char → List Char → Prop
  | nil (run : Nat) : form.Spells run [] []
  | char {run : Nat} {c : Char} {text cs more : List Char} (htext : form.Takes c text)
      (hmore : form.Spells 0 cs more) : form.Spells run (c :: cs) (text ++ more)
  | quote {run : Nat} {cs more : List Char} (hrun : run < form.innerQuotes)
      (hmore : form.Spells (run + 1) cs more) :
      form.Spells run (form.quote :: cs) (form.quote :: more)

/-- Whether a text does not go on with a quote of a form. -/
def Form.EndsBefore (form : Form) (rest : List Char) : Prop := ∀ c ∈ rest.head?, c ≠ form.quote

variable {form : Form} {c : Char} {run : Nat} {cs text rest : List Char}

/-! ## Reading up to the closing quotes -/

theorem body_taken (form : Form) (skipped rest : List Char) :
    body form skipped.length (skipped ++ rest) = body form 0 rest := by
  induction skipped with
  | nil => rfl
  | cons c skipped ih => exact ih

theorem Form.Takes.body (h : form.Takes c text) (rest : List Char) :
    body form 0 (text ++ rest) = (body form 0 rest).map fun r => (c :: r.1, r.2) := by
  rcases h with ⟨head, tail, rfl, -, hpiece⟩
  rw [List.cons_append, Text.body, hpiece]
  dsimp only
  rw [body_taken]
  rfl

theorem length_takeWhile_quotes (hrest : form.EndsBefore rest) (n : Nat) :
    ((List.replicate n form.quote ++ rest).takeWhile (· == form.quote)).length = n := by
  induction n with
  | zero =>
      cases rest with
      | nil => rfl
      | cons c rest =>
          have hc : (c == form.quote) = false := beq_eq_false_iff_ne.2 (hrest c rfl)
          simp [hc]
  | succ n ih => simpa [List.replicate_succ, List.takeWhile_cons] using ih

/-- Over several lines up to two quotes before the closing ones belong to the string. -/
theorem body_quotes (hmulti : form.multiLine = true) (hrest : form.EndsBefore rest) {k : Nat}
    (hk : k ≤ 2) : body form 0 (List.replicate (k + 3) form.quote ++ rest) =
      some (List.replicate k form.quote, rest) := by
  have hcount := length_takeWhile_quotes hrest (k + 2)
  have hpiece : form.piece form.quote (List.replicate (k + 2) form.quote ++ rest) =
      some (.close (List.replicate k form.quote) (k + 2)) := by
    have hmin : min (k + 2) 4 = k + 2 := by omega
    unfold Form.piece
    rw [if_pos rfl, if_pos hmulti]
    dsimp only
    rw [hcount, if_neg (by omega), hmin, Nat.add_sub_cancel]
  rw [List.replicate_succ, List.cons_append, body, hpiece]
  have hdrop : (List.replicate (k + 2) form.quote ++ rest).drop (k + 2) = rest :=
    List.drop_left' List.length_replicate
  dsimp only
  rw [hdrop]

theorem body_delimiter (hrest : form.EndsBefore rest) :
    body form 0 (form.delimiter ++ rest) = some ([], rest) := by
  cases hmulti : form.multiLine with
  | true =>
      have hdelimiter : form.delimiter = List.replicate (0 + 3) form.quote := by
        simp [Form.delimiter, hmulti]
      rw [hdelimiter]
      exact body_quotes hmulti hrest (Nat.zero_le 2)
  | false =>
      have hdelimiter : form.delimiter = [form.quote] := by simp [Form.delimiter, hmulti]
      rw [hdelimiter, List.singleton_append, body]
      simp [Form.piece, hmulti]

/-- What is spelled behind some quotes is nothing but quotes, or soon has something else. -/
theorem Form.Spells.quotes (h : form.Spells run cs text) (hrun : run ≤ form.innerQuotes) :
    (∃ k, cs = List.replicate k form.quote ∧ text = List.replicate k form.quote ∧
      run + k ≤ form.innerQuotes) ∨
    ∀ rest, run + ((text ++ rest).takeWhile (· == form.quote)).length ≤ form.innerQuotes := by
  induction h with
  | nil run => exact .inl ⟨0, rfl, rfl, hrun⟩
  | char htext hmore ih =>
      rcases htext with ⟨head, tail, rfl, hhead, -⟩
      have hhead : (head == form.quote) = false := beq_eq_false_iff_ne.2 hhead
      refine .inr fun rest => ?_
      simpa [List.takeWhile_cons, hhead] using hrun
  | @quote run cs more hlt hmore ih =>
      rcases ih hlt with ⟨k, rfl, rfl, hk⟩ | hstop
      · refine .inl ⟨k + 1, rfl, rfl, ?_⟩
        omega
      · refine .inr fun rest => ?_
        have hmany := hstop rest
        simp only [List.cons_append, List.takeWhile_cons, beq_self_eq_true, if_true,
          List.length_cons]
        omega

/-- A string is read from behind its opening quotes. -/
theorem Form.Spells.body (h : form.Spells run cs text) (hrest : form.EndsBefore rest) :
    body form 0 (text ++ (form.delimiter ++ rest)) = some (cs, rest) := by
  induction h with
  | nil run => exact body_delimiter hrest
  | char htext hmore ih =>
      rw [List.append_assoc, htext.body, ih]
      rfl
  | @quote run cs more hlt hmore ih =>
      have hmulti : form.multiLine = true := by
        cases hm : form.multiLine with
        | true => rfl
        | false => simp [Form.innerQuotes, hm] at hlt
      have hinner : form.innerQuotes = 2 := by rw [Form.innerQuotes, if_pos hmulti]
      have hdelimiter : form.delimiter = List.replicate 3 form.quote := by
        simp [Form.delimiter, hmulti]
      rcases hmore.quotes hlt with ⟨k, rfl, rfl, hk⟩ | hstop
      · -- the quotes are the last of the content, and are taken with the closing ones
        have hall : form.quote :: List.replicate k form.quote ++ (form.delimiter ++ rest) =
            List.replicate (k + 1 + 3) form.quote ++ rest := by
          rw [hdelimiter, ← List.append_assoc, ← List.replicate_succ,
            List.replicate_append_replicate]
        rw [hall, body_quotes hmulti hrest (by omega), List.replicate_succ]
      · have hfew := hstop (form.delimiter ++ rest)
        have hpiece : form.piece form.quote (more ++ (form.delimiter ++ rest)) =
            some (.content [form.quote] 0) := by
          unfold Form.piece
          rw [if_pos rfl, if_pos hmulti]
          dsimp only
          rw [if_pos (by omega)]
        rw [List.cons_append, Text.body, hpiece]
        dsimp only
        rw [ih]
        rfl

/-! ## Texts of single characters -/

theorem takes_plain (hplain : isPlain c = true) (hquote : c ≠ form.quote)
    (hbackslash : c = '\\' → form.quote ≠ escaping) : form.Takes c [c] := by
  refine ⟨c, [], rfl, hquote, fun rest => ?_⟩
  have hescape : ¬ (c = '\\' ∧ form.quote = escaping) := fun h => hbackslash h.1 h.2
  unfold Form.piece
  rw [if_neg hquote, if_neg hescape, if_pos hplain]
  rfl

theorem takes_break (hmulti : form.multiLine = true) (hquote : '\n' ≠ form.quote) :
    form.Takes '\n' ['\n'] := by
  refine ⟨'\n', [], rfl, hquote, fun rest => ?_⟩
  have hescape : ¬ ('\n' = '\\' ∧ form.quote = escaping) := fun h => absurd h.1 (by decide)
  have hplain : ¬ isPlain '\n' = true := by decide
  unfold Form.piece
  rw [if_neg hquote, if_neg hescape, if_neg hplain, if_pos ⟨hmulti, rfl⟩]
  rfl

/-- A backslash with what makes an escape.  It starts no line, since no blank follows it. -/
theorem takes_escape (hquote : form.quote = escaping) {mark : Char} {more : List Char}
    (hmark : isSpace mark = false ∧ mark ≠ '\n' ∧ mark ≠ '\r')
    (hescape : ∀ rest, escape? (mark :: more ++ rest) = some (c, more.length + 1)) :
    form.Takes c ('\\' :: mark :: more) := by
  refine ⟨'\\', mark :: more, rfl, by rw [hquote]; decide, fun rest => ?_⟩
  have hbreak : startsWithBreak ((mark :: more ++ rest).dropWhile isSpace) = false := by
    rw [List.cons_append, List.dropWhile_cons, hmark.1]
    unfold startsWithBreak
    simp [hmark.2.1, hmark.2.2]
  have hstays : ¬ (form.multiLine = true ∧
      startsWithBreak ((mark :: more ++ rest).dropWhile isSpace) = true) := by
    rw [hbreak]
    exact fun h => Bool.false_ne_true h.2
  have hnot : ¬ '\\' = form.quote := by
    rw [hquote]
    decide
  unfold Form.piece
  rw [if_neg hnot, if_pos ⟨rfl, hquote⟩, if_neg hstays, hescape]
  rfl

/-- The four digits of a control character. -/
theorem codePoint?_control : ∀ n < 128,
    let digits := (Nat.toDigits 16 n).map Char.toUpper
    (List.replicate (4 - digits.length) '0' ++ digits).length = 4 ∧
      codePoint? (List.replicate (4 - digits.length) '0' ++ digits) = some (Char.ofNat n) := by
  decide +kernel

theorem isPlain_of_not_isControl (hcontrol : isControl c = false) (hbreak : c ≠ '\n') :
    isPlain c = true := by
  by_cases htab : c = '\t'
  · rw [htab]
    rfl
  · have hlow : ¬ c < ' ' := by
      intro hlt
      simp [isControl, hlt, hbreak, htab] at hcontrol
    have hle : ' ' ≤ c := Char.not_lt.1 hlow
    simpa [isPlain, isControl, htab, hlow, hle] using hcontrol

/-- Between double quotes every other character is written as itself or by an escape. -/
theorem takes_escaped (hquote : form.quote = escaping) (hc : c ≠ escaping)
    (hbreak : c = '\n' → form.multiLine = true) : form.Takes c (escaped c) := by
  have hother : c ≠ form.quote := by rwa [hquote]
  unfold escaped
  by_cases hbackslash : c = '\\'
  · subst hbackslash
    exact takes_escape hquote (by decide) fun rest => rfl
  rw [if_neg hbackslash]
  by_cases hb : c = '\x08'
  · subst hb
    exact takes_escape hquote (by decide) fun rest => rfl
  rw [if_neg hb]
  by_cases ht : c = '\t'
  · subst ht
    exact takes_escape hquote (by decide) fun rest => rfl
  rw [if_neg ht]
  by_cases hf : c = '\x0c'
  · subst hf
    exact takes_escape hquote (by decide) fun rest => rfl
  rw [if_neg hf]
  by_cases hr : c = '\r'
  · subst hr
    exact takes_escape hquote (by decide) fun rest => rfl
  rw [if_neg hr]
  by_cases hcontrol : isControl c = true
  · have hlt : c.toNat < 128 := by
      unfold isControl at hcontrol
      rcases Bool.or_eq_true_iff.1 hcontrol with hlow | hdel
      · have hspace : c < ' ' := by simp_all
        exact Nat.lt_trans (UInt32.lt_iff_toNat_lt.1 hspace) (by decide)
      · rw [eq_of_beq hdel]
        decide
    have hdigits := codePoint?_control c.toNat hlt
    rw [Char.ofNat_toNat] at hdigits
    rw [if_pos hcontrol]
    dsimp only at hdigits ⊢
    generalize hmore : List.replicate _ '0' ++ _ = more at hdigits
    rw [List.cons_append, List.cons_append, hmore]
    refine takes_escape hquote (by decide) fun rest => ?_
    have htake : (more ++ rest).take 4 = more := List.take_left' hdigits.1
    change (if ((more ++ rest).take 4).length = 4 then
      (codePoint? ((more ++ rest).take 4)).map (·, 5) else none) = _
    rw [htake, if_pos hdigits.1, hdigits.2, hdigits.1]
    rfl
  · rw [if_neg hcontrol]
    by_cases hn : c = '\n'
    · subst hn
      exact takes_break (hbreak rfl) hother
    · exact takes_plain (isPlain_of_not_isControl (Bool.eq_false_iff.2 hcontrol) hn) hother
        fun h => absurd h hbackslash

/-! ## Texts of strings -/

theorem spells_escapedBody (hquote : form.quote = escaping)
    (hbreak : '\n' ∈ cs → form.multiLine = true) (run : Nat) :
    form.Spells run cs (escapedBody form.innerQuotes run cs) := by
  induction cs generalizing run with
  | nil => exact .nil run
  | cons c rest ih =>
      have hrest := ih fun h => hbreak (List.mem_cons_of_mem c h)
      unfold escapedBody
      by_cases hc : c = escaping
      · subst hc
        rw [if_neg (not_not_intro rfl)]
        by_cases hrun : run < form.innerQuotes
        · rw [if_pos hrun, ← hquote]
          exact .quote hrun (hrest (run + 1))
        · rw [if_neg hrun]
          -- one quote too many in a row is escaped
          have hescaped : form.Takes escaping ['\\', escaping] :=
            takes_escape hquote (by decide) fun rest => rfl
          exact .char hescaped (hrest 0)
      · rw [if_pos hc]
        refine .char (takes_escaped hquote hc ?_) (hrest 0)
        rintro rfl
        exact hbreak List.mem_cons_self

theorem le_longestRun (q : Char) (run : Nat) (cs : List Char) : run ≤ longestRun q run cs := by
  induction cs generalizing run with
  | nil => exact Nat.le_refl run
  | cons c rest ih =>
      unfold longestRun
      split
      · exact Nat.le_trans (Nat.le_succ run) (ih (run + 1))
      · exact Nat.le_max_left _ _

/-- Between single quotes every character stands for itself. -/
theorem spells_literal (hquote : form.quote = literal)
    (hplain : ∀ c ∈ cs, isControl c = false) (hrun : longestRun literal run cs ≤ form.innerQuotes)
    (hbreak : '\n' ∈ cs → form.multiLine = true) : form.Spells run cs cs := by
  induction cs generalizing run with
  | nil => exact .nil run
  | cons c rest ih =>
      have hrest : ∀ {run : Nat}, longestRun literal run rest ≤ form.innerQuotes →
          form.Spells run rest rest := fun hlongest =>
        ih (fun c h => hplain c (List.mem_cons_of_mem _ h)) hlongest
          fun h => hbreak (List.mem_cons_of_mem c h)
      rw [longestRun] at hrun
      by_cases hc : c = literal
      · rw [if_pos hc] at hrun
        have hlt : run < form.innerQuotes := Nat.lt_of_lt_of_le (le_longestRun _ _ _) hrun
        rw [hc, ← hquote]
        exact .quote hlt (hrest hrun)
      · rw [if_neg hc] at hrun
        have hother : c ≠ form.quote := by rwa [hquote]
        have htext : form.Takes c [c] := by
          by_cases hn : c = '\n'
          · subst hn
            exact takes_break (hbreak List.mem_cons_self) hother
          · refine takes_plain ?_ hother fun _ => by rw [hquote]; decide
            exact isPlain_of_not_isControl (hplain c List.mem_cons_self) hn
        exact .char htext (hrest (Nat.le_trans (Nat.le_max_right _ _) hrun))

/-- The form that is chosen for a string takes all of its characters. -/
theorem exists_spelled (s : String) : ∃ form : Form, ∃ text : List Char,
    isQuote form.quote = true ∧ form.Spells 0 s.toList text ∧
      render s = form.enclose (s.toList.contains '\n') text := by
  unfold render
  dsimp only
  generalize hcs : s.toList = cs
  cases hfound : Form.all.find? (·.fits cs) with
  | none =>
      refine ⟨⟨escaping, cs.contains '\n'⟩, _, rfl, ?_, rfl⟩
      exact spells_escapedBody rfl (fun h => List.contains_iff_mem.2 h) 0
  | some form =>
      have hfits := List.find?_some hfound
      have hmem : form ∈ Form.all := List.mem_of_find?_eq_some hfound
      simp only [Form.fits, Bool.and_eq_true, List.all_eq_true, Bool.not_eq_true',
        decide_eq_true_eq] at hfits
      have hbreak : '\n' ∈ cs → form.multiLine = true := by
        intro hn
        simpa [hn] using hfits.2
      rw [Option.getD_some]
      by_cases hquote : form.quote = escaping
      · refine ⟨form, _, by rw [hquote]; rfl, ?_, by rw [if_pos hquote]⟩
        exact spells_escapedBody hquote hbreak 0
      · have hliteral : form.quote = literal := by
          simp only [Form.all, List.mem_cons, List.not_mem_nil, or_false] at hmem
          rcases hmem with rfl | rfl | rfl | rfl
          · exact absurd rfl hquote
          · rfl
          · exact absurd rfl hquote
          · rfl
        refine ⟨form, cs, by rw [hliteral]; rfl, ?_, by rw [if_neg hquote]⟩
        exact spells_literal hliteral hfits.1.1.1 (hliteral ▸ hfits.1.2) hbreak

/-! ## Reading a string -/

theorem piece_break (hquote : isQuote form.quote = true) (hc : c = '\n' ∨ c = '\r')
    {content : List Char} {width : Nat} (h : form.piece c rest = some (.content content width)) :
    content = ['\n'] := by
  have hother : c ≠ form.quote := by
    rintro rfl
    rcases hc with hc | hc <;> rw [hc] at hquote <;> cases hquote
  have hescape : ¬ (c = '\\' ∧ form.quote = escaping) := by
    rintro ⟨rfl, -⟩
    revert hc
    decide
  have hplain : ¬ isPlain c = true := by rcases hc with rfl | rfl <;> decide
  unfold Form.piece at h
  rw [if_neg hother, if_neg hescape, if_neg hplain] at h
  split at h
  · cases h
    rfl
  · cases h

/-- A text starts with a line break only if its string does. -/
theorem Form.Spells.dropBreak (h : form.Spells run cs text) (hquote : isQuote form.quote = true)
    (hbreak : '\n' ∉ cs) (rest : List Char) :
    dropBreak (text ++ (form.delimiter ++ rest)) = text ++ (form.delimiter ++ rest) := by
  have hstays : ∀ head more, head ≠ '\n' → head ≠ '\r' →
      Text.dropBreak (head :: more) = head :: more := by
    intro head more hn hr
    unfold Text.dropBreak
    split
    · next heq => exact absurd (List.cons.inj heq).1 hn
    · next heq => exact absurd (List.cons.inj heq).1 hr
    · rfl
  have hquotes : form.quote ≠ '\n' ∧ form.quote ≠ '\r' := by
    constructor <;> intro hq <;> rw [hq] at hquote <;> cases hquote
  cases h with
  | nil =>
      have hdelimiter : ∃ more, form.delimiter = form.quote :: more := by
        unfold Form.delimiter
        split
        · exact ⟨_, List.replicate_succ⟩
        · exact ⟨_, List.replicate_succ⟩
      rcases hdelimiter with ⟨more, hmore⟩
      rw [hmore]
      exact hstays _ _ hquotes.1 hquotes.2
  | @char _ c text cs more htext _ =>
      rcases htext with ⟨head, tail, rfl, -, hpiece⟩
      have hc : c ≠ '\n' := by
        rintro rfl
        exact hbreak List.mem_cons_self
      have hhead : ¬ (head = '\n' ∨ head = '\r') := fun hhead =>
        hc (List.singleton_inj.1 (piece_break hquote hhead (hpiece [])))
      exact hstays _ _ (fun h => hhead (.inl h)) fun h => hhead (.inr h)
  | quote => exact hstays _ _ hquotes.1 hquotes.2

/-- On one line no quote stands right behind the opening one, unless the string is empty and ends
with it. -/
theorem Form.Spells.take_ne (h : form.Spells run cs text) (hsingle : form.multiLine = false)
    (hrest : form.EndsBefore rest) :
    (text ++ form.quote :: rest).take 2 ≠ [form.quote, form.quote] := by
  intro htwo
  cases h with
  | nil =>
      cases rest with
      | nil => cases htwo
      | cons c rest => exact hrest c rfl (List.cons.inj (List.cons.inj htwo).2).1
  | char htext =>
      rcases htext with ⟨head, tail, rfl, hhead, -⟩
      exact hhead (List.cons.inj htwo).1
  | quote hrun =>
      rw [Form.innerQuotes, hsingle] at hrun
      exact absurd hrun (Nat.not_lt_zero run)

theorem read_enclose (hquote : isQuote form.quote = true) {severalLines : Bool} {content : String}
    (hlines : severalLines = content.toList.contains '\n')
    (h : form.Spells 0 content.toList text) (hrest : form.EndsBefore rest) :
    read (form.enclose severalLines text ++ rest) = some (content, rest) := by
  have hbody := h.body hrest
  have htwo := fun hsingle => h.take_ne hsingle hrest
  have hbreak : severalLines = false → '\n' ∉ content.toList := by
    rintro rfl hn
    rw [List.contains_iff_mem.2 hn] at hlines
    cases hlines
  have hkept := fun hone => h.dropBreak hquote (hbreak hone) rest
  rcases form with ⟨q, multiLine⟩
  cases multiLine with
  | true =>
      let opened := text ++ (Form.delimiter ⟨q, true⟩ ++ rest)
      have htext : Form.enclose ⟨q, true⟩ severalLines text ++ rest =
          q :: q :: q :: ((if severalLines then ['\n'] else []) ++ opened) := by
        simp [opened, Form.enclose, Form.delimiter, List.replicate]
      have hdrop : dropBreak ((if severalLines then ['\n'] else []) ++ opened) = opened := by
        cases hseveral : severalLines with
        | true => rfl
        | false => exact hkept hseveral
      rw [htext, read, if_pos ⟨hquote, rfl⟩, List.drop_succ_cons, List.drop_succ_cons,
        List.drop_zero, hdrop, hbody, Option.map_some, String.ofList_toList]
  | false =>
      have htext : Form.enclose ⟨q, false⟩ severalLines text ++ rest =
          q :: (text ++ q :: rest) := by
        simp [Form.enclose, Form.delimiter]
      rw [htext, read, if_neg fun h => htwo rfl h.2, readLine, if_pos hquote]
      have hclosed : body ⟨q, false⟩ 0 (text ++ q :: rest) = some (content.toList, rest) := hbody
      rw [hclosed, Option.map_some, String.ofList_toList]

/-- Every string is read back from what is written for it. -/
theorem read_render (s : String) (hrest : ∀ c ∈ rest.head?, isQuote c = false) :
    read (render s ++ rest) = some (s, rest) := by
  rcases exists_spelled s with ⟨form, text, hquote, hspells, hrender⟩
  rw [hrender]
  refine read_enclose hquote rfl hspells fun c hc => ?_
  rintro rfl
  have hno := hrest _ hc
  rw [hquote] at hno
  cases hno

end Text

end Toml

end FencedPool
