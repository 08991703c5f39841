import FencedPool.Text.Padded
import Mathlib.Algebra.Group.Nat.Defs

/-!
# Digits — what numbers are written with

Numbers are written with decimal digits only, so a number behind a text adds neither a slash nor a
separator to it.  Texts of digits sort as their numbers do when they are equally long, and only
then: the text of 100 comes before that of 20.

The main statements are `digits_lt_of_value_lt` and, for numbers that have one width anyway or are
padded to it, `toDigits_lt_of_lt` and `padded_lt_of_lt`.
-/

namespace FencedPool

namespace Text

theorem toList_padded (base width n : Nat) :
    (padded base width n).toList =
      List.replicate (width - (Nat.toDigits base n).length) '0' ++ Nat.toDigits base n :=
  String.toList_ofList

theorem isDigit_of_mem_padded {width n : Nat} {c : Char}
    (h : c ∈ (padded 10 width n).toList) : c.isDigit = true := by
  rw [toList_padded] at h
  rcases List.mem_append.1 h with hzero | hdigit
  · rw [List.eq_of_mem_replicate hzero]
    rfl
  · exact Nat.isDigit_of_mem_toDigits (by decide) (by decide) hdigit

theorem padded_ne_nil (base width n : Nat) : (padded base width n).toList ≠ [] := by
  have hpos : 0 < (Nat.toDigits base n).length := Nat.length_toDigits_pos
  rw [toList_padded]
  intro hnil
  rw [(List.append_eq_nil_iff.1 hnil).2] at hpos
  exact absurd hpos (Nat.lt_irrefl 0)

/-- A number is what its digits make when each moves those before it up by one place. -/
theorem foldl_toDigits (n : Nat) : ((Nat.toDigits 10 n).map fun c => c.toNat - '0'.toNat).foldl
    (fun n d => n * 10 + d) 0 = n := by
  have hvalue : Nat.ofDigitChars 10 (Nat.toDigits 10 n) 0 = n :=
    Nat.ofDigitChars_toDigits (by decide) (by decide)
  rw [List.foldl_map]
  simpa only [Nat.ofDigitChars, Nat.mul_comm 10] using hvalue

/-- Only zero itself is written with a zero at the front. -/
theorem toDigits_head {n : Nat} (hn : 0 < n) {c : Char} {more : List Char}
    (h : Nat.toDigits 10 n = c :: more) : c.toNat - '0'.toNat ≠ 0 := by
  induction n using Nat.strongRecOn generalizing c more with
  | ind n ih =>
      by_cases hsmall : n < 10
      · rw [Nat.toDigits_of_lt_base hsmall] at h
        cases h
        have hdigit : ∀ m < 10, 0 < m → (Nat.digitChar m).toNat - '0'.toNat ≠ 0 := by decide
        exact hdigit n hsmall hn
      · rw [Nat.toDigits_of_base_le (by decide) (by omega)] at h
        cases hfront : Nat.toDigits 10 (n / 10) with
        | nil => exact absurd hfront Nat.toDigits_ne_nil
        | cons d front =>
            rw [hfront] at h
            cases h
            exact ih (n / 10) (by omega) (by omega) hfront

/-! ## Order -/

theorem digit_bounds {c : Char} (h : c.isDigit = true) : 48 ≤ c.toNat ∧ c.toNat ≤ 57 := by
  unfold Char.isDigit at h
  rcases Bool.and_eq_true_iff.1 h with ⟨hlow, hhigh⟩
  exact ⟨UInt32.le_iff_toNat_le.1 (of_decide_eq_true hlow),
    UInt32.le_iff_toNat_le.1 (of_decide_eq_true hhigh)⟩

/-- So many digits stand for less than that power of ten. -/
theorem ofDigitChars_lt {digits : List Char} (h : ∀ c ∈ digits, c.isDigit = true) :
    Nat.ofDigitChars 10 digits 0 < 10 ^ digits.length := by
  induction digits with
  | nil => simp [Nat.ofDigitChars]
  | cons c rest ih =>
      rcases List.forall_mem_cons.1 h with ⟨hc, hrest⟩
      have hvalue := ih hrest
      have hbounds := digit_bounds hc
      have hpow : 10 ^ (rest.length + 1) = 10 * 10 ^ rest.length := by
        rw [Nat.pow_succ, Nat.mul_comm]
      rw [Nat.ofDigitChars_cons, Nat.ofDigitChars_eq_ofDigitChars_zero, List.length_cons, hpow]
      have hdigit : 10 * 0 + (c.toNat - '0'.toNat) ≤ 9 := by
        change 10 * 0 + (c.toNat - 48) ≤ 9
        omega
      have hlead := Nat.mul_le_mul_left (10 ^ rest.length) hdigit
      omega

/-- Among equally many digits those of a smaller number come first. -/
theorem digits_lt_of_value_lt {first second : List Char} (hlength : first.length = second.length)
    (hfirst : ∀ c ∈ first, c.isDigit = true) (hsecond : ∀ c ∈ second, c.isDigit = true)
    (h : Nat.ofDigitChars 10 first 0 < Nat.ofDigitChars 10 second 0) : first < second := by
  induction first generalizing second with
  | nil =>
      rw [List.length_eq_zero_iff.1 hlength.symm] at h
      exact absurd h (Nat.lt_irrefl _)
  | cons c first ih =>
      cases second with
      | nil => cases hlength
      | cons d second =>
          rcases List.forall_mem_cons.1 hfirst with ⟨hc, hfirst⟩
          rcases List.forall_mem_cons.1 hsecond with ⟨hd, hsecond⟩
          have hrest : first.length = second.length := Nat.succ.inj hlength
          rw [Nat.ofDigitChars_cons, Nat.ofDigitChars_cons,
            Nat.ofDigitChars_eq_ofDigitChars_zero,
            Nat.ofDigitChars_eq_ofDigitChars_zero (l := second), hrest] at h
          rw [List.cons_lt_cons_iff]
          rcases Nat.lt_trichotomy c.toNat d.toNat with hlt | heq | hgt
          · exact .inl hlt
          · have hsame : c = d := Char.toNat_inj.1 heq
            rw [hsame] at h
            exact .inr ⟨hsame, ih hrest hfirst hsecond (Nat.lt_of_add_lt_add_left h)⟩
          · -- a greater digit in front outweighs all that follows
            have hvalue := ofDigitChars_lt hsecond
            have hcBounds := digit_bounds hc
            have hdBounds := digit_bounds hd
            have hdigit : 10 * 0 + (d.toNat - '0'.toNat) + 1 ≤ 10 * 0 + (c.toNat - '0'.toNat) := by
              change 10 * 0 + (d.toNat - 48) + 1 ≤ 10 * 0 + (c.toNat - 48)
              omega
            have hlead := Nat.mul_le_mul_left (10 ^ second.length) hdigit
            rw [Nat.mul_add, Nat.mul_one] at hlead
            omega

theorem toDigits_lt_of_lt {n m : Nat}
    (hlength : (Nat.toDigits 10 n).length = (Nat.toDigits 10 m).length) (h : n < m) :
    Nat.toDigits 10 n < Nat.toDigits 10 m := by
  refine digits_lt_of_value_lt hlength ?_ ?_ ?_
  · exact fun c hc => Nat.isDigit_of_mem_toDigits (by decide) (by decide) hc
  · exact fun c hc => Nat.isDigit_of_mem_toDigits (by decide) (by decide) hc
  · rwa [Nat.ofDigitChars_toDigits (by decide) (by decide),
      Nat.ofDigitChars_toDigits (by decide) (by decide)]

theorem length_padded {width n : Nat} (hwidth : 0 < width) (h : n < 10 ^ width) :
    (padded 10 width n).toList.length = width := by
  have hle := (Nat.length_toDigits_le_iff (by decide) hwidth).2 h
  rw [toList_padded, List.length_append, List.length_replicate]
  omega

/-- Zeros in front do not count. -/
theorem value_padded (width n : Nat) :
    Nat.ofDigitChars 10 (padded 10 width n).toList 0 = n := by
  have hzeros : ∀ k, Nat.ofDigitChars 10 (List.replicate k '0') 0 = 0 := by
    intro k
    induction k with
    | zero => rfl
    | succ k ih =>
        rw [List.replicate_succ, Nat.ofDigitChars_cons]
        exact ih
  rw [toList_padded, Nat.ofDigitChars_append, hzeros,
    Nat.ofDigitChars_toDigits (by decide) (by decide)]

theorem padded_lt_of_lt {width n m : Nat} (hwidth : 0 < width) (hm : m < 10 ^ width)
    (h : n < m) : (padded 10 width n).toList < (padded 10 width m).toList := by
  refine digits_lt_of_value_lt ?_ ?_ ?_ ?_
  · rw [length_padded hwidth (Nat.lt_trans h hm), length_padded hwidth hm]
  · exact fun c hc => isDigit_of_mem_padded hc
  · exact fun c hc => isDigit_of_mem_padded hc
  · rwa [value_padded, value_padded]

/-- Of two texts that start with equally many characters the one whose start comes first does. -/
theorem append_lt_of_lt {first second : List Char} (hlength : first.length = second.length)
    (h : first < second) (more more' : List Char) : first ++ more < second ++ more' := by
  induction first generalizing second with
  | nil =>
      rw [List.length_eq_zero_iff.1 hlength.symm] at h
      cases h
  | cons c first ih =>
      cases second with
      | nil => cases hlength
      | cons d second =>
          rw [List.cons_append, List.cons_append, List.cons_lt_cons_iff]
          rcases List.cons_lt_cons_iff.1 h with hlt | ⟨hsame, hlt⟩
          · exact .inl hlt
          · exact .inr ⟨hsame, ih (Nat.succ.inj hlength) hlt⟩

end Text

end FencedPool
