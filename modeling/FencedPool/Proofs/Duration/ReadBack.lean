import FencedPool.Duration.Text
import FencedPool.Proofs.Text.Digits
import Mathlib.Algebra.Order.BigOperators.Group.List
import Mathlib.Algebra.Order.Group.Nat
import Mathlib.Algebra.Ring.Nat

/-!
# ReadBack — a duration is read back from its parts

A duration is written as items, each a number with a unit, from years down to nanoseconds.  A reader
adds them up.  Years, months and days are lengths in whole seconds, and each part is what the
longer units leave over, so the sum is the duration again, and no sum on the way is longer than it.

This file defines `Duration.Item` and `Duration.items`, the items that a duration is written as.

The main statement is `Duration.read?_text`.
-/

namespace FencedPool

/-! ## Units -/

namespace TimeUnit

/-- How a unit is written behind a number, which is one or more. -/
def label (u : TimeUnit) (several : Bool) : String :=
  match u, several with
  | .nano, _ => "ns"
  | .micro, _ => "us"
  | .milli, _ => "ms"
  | .second, _ => "s"
  | .minute, _ => "m"
  | .hour, _ => "h"
  | .day, several => if several then "days" else "day"
  | .week, several => if several then "weeks" else "week"
  | .month, several => if several then "months" else "month"
  | .year, several => if several then "years" else "year"

/-- The nanoseconds of a unit. -/
def length (u : TimeUnit) : Nat := u.seconds * nanosPerSecond + u.nanos

theorem named?_label (u : TimeUnit) (several : Bool) : named? (u.label several) = some u := by
  cases u <;> cases several <;> rfl

end TimeUnit

namespace Duration

/-- Whether a character can stand in the name of a unit and nowhere else in an item. -/
def IsLetter (c : Char) : Prop :=
  digit? c = none ∧ Text.isBlank c = false ∧ isUnitLetter c = true

instance (c : Char) : Decidable (IsLetter c) := inferInstanceAs (Decidable (_ ∧ _ ∧ _))

theorem exists_label (u : TimeUnit) (several : Bool) : ∃ first more,
    (u.label several).toList = first :: more ∧ ∀ c ∈ first :: more, IsLetter c := by
  have hletters : ∀ label : List Char, (label.all fun c => decide (IsLetter c)) = true →
      ∀ c ∈ label, IsLetter c :=
    fun label hall c hc => of_decide_eq_true (List.all_eq_true.1 hall c hc)
  cases u <;> cases several <;> exact ⟨_, _, rfl, hletters _ (by decide)⟩

/-! ## Items -/

structure Item where
  count : Nat
  unit : TimeUnit

namespace Item

def name (i : Item) : String := i.unit.label (1 < i.count)

def text (i : Item) : List Char := Nat.toDigits 10 i.count ++ i.name.toList

/-- The nanoseconds of an item. -/
def amount (i : Item) : Nat := i.count * i.unit.length

/-- Whether an item below a second is less than one. -/
def IsPart (i : Item) : Prop := i.count * i.unit.nanos < nanosPerSecond

end Item

variable {sum : Duration} {item : Item}

/-! ## Reading an item -/

theorem word?_of_lt {n : Nat} (h : n < Power.two 64) : word? n = some n := if_pos h

theorem digit?_of_isDigit {c : Char} (h : c.isDigit = true) :
    digit? c = some (c.toNat - '0'.toNat) := by
  rcases Text.digit_bounds h with ⟨hlow, hhigh⟩
  have hdigit : '0' ≤ c ∧ c ≤ '9' := ⟨hlow, hhigh⟩
  rw [digit?, if_pos hdigit]

theorem le_ofDigitChars (digits : List Char) (n : Nat) : n ≤ Nat.ofDigitChars 10 digits n := by
  rw [Nat.ofDigitChars_eq_ofDigitChars_zero]
  have hpos : 0 < 10 ^ digits.length := Nat.pow_pos (by decide)
  calc n ≤ 10 ^ digits.length * n := Nat.le_mul_of_pos_left n hpos
    _ ≤ 10 ^ digits.length * n + Nat.ofDigitChars 10 digits 0 := Nat.le_add_right _ _

theorem readFrom_digits {digits : List Char} (hdigits : ∀ c ∈ digits, c.isDigit = true) {n : Nat}
    (hvalue : Nat.ofDigitChars 10 digits n < Power.two 64) (rest : List Char) :
    readFrom sum (.whole n) (digits ++ rest) =
      readFrom sum (.whole (Nat.ofDigitChars 10 digits n)) rest := by
  induction digits generalizing n with
  | nil => rfl
  | cons c digits ih =>
      rcases List.forall_mem_cons.1 hdigits with ⟨hc, hmore⟩
      rw [Nat.ofDigitChars_cons, Nat.mul_comm] at hvalue
      have hnext : n * 10 + (c.toNat - '0'.toNat) < Power.two 64 :=
        Nat.lt_of_le_of_lt (le_ofDigitChars digits _) hvalue
      rw [List.cons_append, readFrom, digit?_of_isDigit hc]
      dsimp only
      rw [word?_of_lt hnext, Nat.ofDigitChars_cons, Nat.mul_comm 10 n]
      exact ih hmore hvalue

theorem readFrom_number {digits : List Char} (hdigits : ∀ c ∈ digits, c.isDigit = true)
    (hne : digits ≠ []) (hvalue : Nat.ofDigitChars 10 digits 0 < Power.two 64)
    (rest : List Char) : readFrom sum .number (digits ++ rest) =
      readFrom sum (.whole (Nat.ofDigitChars 10 digits 0)) rest := by
  cases digits with
  | nil => exact absurd rfl hne
  | cons c digits =>
      rcases List.forall_mem_cons.1 hdigits with ⟨hc, hmore⟩
      rw [Nat.ofDigitChars_cons, Nat.mul_zero, Nat.zero_add] at hvalue ⊢
      rw [List.cons_append, readFrom, digit?_of_isDigit hc]
      exact readFrom_digits hmore hvalue rest

theorem readFrom_letters {letters : List Char} (hletters : ∀ c ∈ letters, IsLetter c) (n : Nat)
    (f : Option Fraction) (name rest : List Char) :
    readFrom sum (.unit n f name) (letters ++ rest) =
      readFrom sum (.unit n f (name ++ letters)) rest := by
  induction letters generalizing name with
  | nil => rw [List.nil_append, List.append_nil]
  | cons c letters ih =>
      rcases List.forall_mem_cons.1 hletters with ⟨⟨hdigit, hblank, hletter⟩, hmore⟩
      rw [List.cons_append, readFrom, hdigit]
      dsimp only
      rw [hblank, if_neg Bool.false_ne_true, if_pos hletter, ih hmore, List.append_assoc,
        List.singleton_append]

theorem readFrom_item (hcount : item.count < Power.two 64) (rest : List Char) :
    readFrom sum .number (item.text ++ rest) =
      readFrom sum (.unit item.count none item.name.toList) rest := by
  have hdigits : ∀ c ∈ Nat.toDigits 10 item.count, c.isDigit = true := fun c =>
    Nat.isDigit_of_mem_toDigits (by decide) (by decide)
  have hvalue : Nat.ofDigitChars 10 (Nat.toDigits 10 item.count) 0 = item.count :=
    Nat.ofDigitChars_toDigits (by decide) (by decide)
  have hne : Nat.toDigits 10 item.count ≠ [] := List.ne_nil_of_length_pos Nat.length_toDigits_pos
  rcases exists_label item.unit (1 < item.count) with ⟨first, more, hlabel, hletters⟩
  rcases List.forall_mem_cons.1 hletters with ⟨⟨hdigit, hblank, hletter⟩, hmore⟩
  rw [Item.text, Item.name, List.append_assoc, readFrom_number hdigits hne (by rwa [hvalue]),
    hvalue, hlabel, List.cons_append, readFrom, hdigit]
  dsimp only
  rw [hblank, if_neg Bool.false_ne_true, if_pos hletter, readFrom_letters hmore]
  rfl

/-! ## Adding items up -/

theorem two_seconds_lt : nanosPerSecond + nanosPerSecond < Power.two 64 := by decide

theorem Item.amount_eq (item : Item) : item.amount =
    item.count * item.unit.seconds * nanosPerSecond + item.count * item.unit.nanos := by
  unfold amount TimeUnit.length
  rw [Nat.mul_add, Nat.mul_assoc]

/-- An item that is no longer than the longest duration has less than 2⁶⁴ seconds. -/
theorem Item.seconds_lt (h : item.amount ≤ longest.toNanos) :
    item.count * item.unit.seconds < Power.two 64 := by
  have hbound : longest.toNanos < Power.two 64 * nanosPerSecond := by decide
  have hle : item.count * item.unit.seconds * nanosPerSecond ≤ item.amount := by
    rw [item.amount_eq]
    exact Nat.le_add_right _ _
  exact Nat.lt_of_mul_lt_mul_right (Nat.lt_of_le_of_lt (Nat.le_trans hle h) hbound)

theorem Item.nanos_lt (hpart : item.IsPart) : item.count * item.unit.nanos < Power.two 64 :=
  Nat.lt_trans hpart (Nat.lt_of_le_of_lt (Nat.le_add_left _ _) two_seconds_lt)

/-- An item is added as long as the sum is no longer than the longest duration. -/
theorem addItem?_item (hpart : item.IsPart)
    (hsum : sum.toNanos + item.amount ≤ longest.toNanos) :
    ∃ next, addItem? sum item.count none item.name.toList = some next ∧
      next.toNanos = sum.toNanos + item.amount := by
  rcases exists_toNanos hsum with ⟨next, hnext⟩
  refine ⟨next, ?_, hnext⟩
  have hseconds := Item.seconds_lt (Nat.le_trans (Nat.le_add_left _ _) hsum)
  have hnanos := item.nanos_lt hpart
  have hcarry : sum.nanos + item.count * item.unit.nanos < Power.two 64 :=
    Nat.lt_trans (Nat.add_lt_add sum.nanos_lt hpart) two_seconds_lt
  have hadd : sum.add? (item.count * item.unit.seconds) (item.count * item.unit.nanos) =
      some next := by
    rw [add?, ofNanos?_eq_some_iff, hnext, item.amount_eq, Nat.add_assoc]
  unfold addItem?
  rw [String.ofList_toList]
  refine Option.bind_eq_some_iff.2 ⟨item.unit, TimeUnit.named?_label _ _, ?_⟩
  refine Option.bind_eq_some_iff.2 ⟨_, word?_of_lt hseconds, ?_⟩
  refine Option.bind_eq_some_iff.2 ⟨_, word?_of_lt hnanos, ?_⟩
  refine Option.bind_eq_some_iff.2 ⟨_, word?_of_lt hcarry, ?_⟩
  exact Option.bind_eq_some_iff.2 ⟨next, hadd, rfl⟩

theorem Item.count_lt (hpart : item.IsPart) (h : item.amount ≤ longest.toNanos) :
    item.count < Power.two 64 := by
  have hseconds := Item.seconds_lt h
  have hunit : 1 ≤ item.unit.seconds ∨ 1 ≤ item.unit.nanos := by
    cases item.unit <;> simp [TimeUnit.seconds, TimeUnit.nanos]
  rcases hunit with hone | hone
  · exact Nat.lt_of_le_of_lt (Nat.le_mul_of_pos_right _ hone) hseconds
  · exact Nat.lt_of_le_of_lt (Nat.le_mul_of_pos_right _ hone) (item.nanos_lt hpart)

/-- A blank ends an item. -/
theorem readFrom_blank {n : Nat} {f : Option Fraction} {name : List Char} {next : Duration}
    (h : addItem? sum n f name = some next) (rest : List Char) :
    readFrom sum (.unit n f name) (' ' :: rest) = readFrom next .number rest := by
  have hdigit : digit? ' ' = none := rfl
  have hblank : Text.isBlank ' ' = true := rfl
  rw [readFrom, hdigit]
  dsimp only
  rw [if_pos hblank, h]

/-- The items of a text are added up. -/
theorem readFrom_items {items : List Item} (hparts : ∀ item ∈ items, item.IsPart)
    (hsum : sum.toNanos + (items.map Item.amount).sum ≤ longest.toNanos) :
    ∃ last, readFrom sum .number ([' '].intercalate (items.map Item.text)) = some last ∧
      last.toNanos = sum.toNanos + (items.map Item.amount).sum := by
  induction items generalizing sum with
  | nil => exact ⟨sum, rfl, (Nat.add_zero _).symm⟩
  | cons item rest ih =>
      rcases List.forall_mem_cons.1 hparts with ⟨hpart, hmore⟩
      rw [List.map_cons, List.sum_cons, ← Nat.add_assoc] at hsum
      have hfirst : sum.toNanos + item.amount ≤ longest.toNanos :=
        Nat.le_trans (Nat.le_add_right _ _) hsum
      have hcount := item.count_lt hpart (Nat.le_trans (Nat.le_add_left _ _) hfirst)
      rcases addItem?_item hpart hfirst with ⟨next, hnext, hvalue⟩
      rw [← hvalue] at hsum
      rcases ih hmore hsum with ⟨last, hlast, htotal⟩
      refine ⟨last, ?_, ?_⟩
      · cases rest with
        | nil =>
            rw [List.map_singleton, List.intercalate_singleton, ← item.text.append_nil,
              readFrom_item hcount, readFrom, hnext, ← hlast]
            rfl
        | cons second rest =>
            rw [List.map_cons, List.map_cons, List.intercalate_cons_cons, List.append_assoc,
              readFrom_item hcount, List.singleton_append, readFrom_blank hnext]
            exact hlast
      · rw [htotal, hvalue, List.map_cons, List.sum_cons, Nat.add_assoc]

/-! ## The items of a duration -/

/-- All parts of a duration, those that are zero among them. -/
def allItems (d : Duration) : List Item :=
  let inYear := d.seconds % TimeUnit.year.seconds
  let inMonth := inYear % TimeUnit.month.seconds
  let inDay := inMonth % TimeUnit.day.seconds
  [⟨d.seconds / TimeUnit.year.seconds, .year⟩, ⟨inYear / TimeUnit.month.seconds, .month⟩,
    ⟨inMonth / TimeUnit.day.seconds, .day⟩, ⟨inDay / 3600, .hour⟩, ⟨inDay % 3600 / 60, .minute⟩,
    ⟨inDay % 60, .second⟩, ⟨d.nanos / 1000000, .milli⟩, ⟨d.nanos / 1000 % 1000, .micro⟩,
    ⟨d.nanos % 1000, .nano⟩]

/-- The items that a duration is written as. -/
def items (d : Duration) : List Item := d.allItems.filter (·.count ≠ 0)

theorem parts_eq (d : Duration) : d.parts = d.allItems.flatMap fun i => part i.count i.name := by
  simp [parts, allItems, pluralPart, Item.name, TimeUnit.label, List.append_assoc]

theorem toList_parts (d : Duration) : d.parts.map String.toList = d.items.map Item.text := by
  rw [parts_eq, items]
  induction d.allItems with
  | nil => rfl
  | cons i rest ih =>
      rw [List.flatMap_cons, List.map_append, ih, List.filter_cons]
      by_cases hzero : i.count = 0
      · simp [part, hzero]
      · simp [part, hzero, Item.text, Text.decimal, String.toList_append]

theorem sum_filter_amount (items : List Item) :
    ((items.filter (·.count ≠ 0)).map Item.amount).sum = (items.map Item.amount).sum := by
  induction items with
  | nil => rfl
  | cons i rest ih =>
      rw [List.filter_cons]
      by_cases hzero : i.count = 0
      · simp [hzero, Item.amount, ← ih]
      · simp [hzero, ← ih]

theorem sum_amount (items : List Item) : (items.map Item.amount).sum =
    (items.map fun i => i.count * i.unit.seconds).sum * nanosPerSecond +
      (items.map fun i => i.count * i.unit.nanos).sum := by
  induction items with
  | nil => simp
  | cons i rest ih =>
      rw [List.map_cons, List.map_cons, List.map_cons, List.sum_cons, List.sum_cons, List.sum_cons,
        ih, i.amount_eq, Nat.add_mul, Nat.add_add_add_comm]

/-- A number of seconds is what its parts in three units, in hours, minutes and seconds make up. -/
theorem add_parts (n year month day : Nat) :
    n / year * year + (n % year / month * month + (n % year % month / day * day +
      (n % year % month % day / 3600 * 3600 + (n % year % month % day % 3600 / 60 * 60 +
        n % year % month % day % 60)))) = n := by
  have hrest : n % year % month % day % 60 = n % year % month % day % 3600 % 60 :=
    (Nat.mod_mod_of_dvd _ (by decide)).symm
  rw [hrest, Nat.div_add_mod', Nat.div_add_mod', Nat.div_add_mod', Nat.div_add_mod',
    Nat.div_add_mod']

/-- A number of nanoseconds below a second is what its parts make up. -/
theorem add_fractions (n : Nat) :
    n / 1000000 * 1000000 + (n / 1000 % 1000 * 1000 + n % 1000) = n := by omega

/-- The parts of a duration, each with a weight that its unit has. -/
theorem sum_allItems (d : Duration) (weight : TimeUnit → Nat) :
    (d.allItems.map fun i => i.count * weight i.unit).sum =
      let inYear := d.seconds % TimeUnit.year.seconds
      let inMonth := inYear % TimeUnit.month.seconds
      let inDay := inMonth % TimeUnit.day.seconds
      (d.seconds / TimeUnit.year.seconds * weight .year +
        (inYear / TimeUnit.month.seconds * weight .month +
        (inMonth / TimeUnit.day.seconds * weight .day + (inDay / 3600 * weight .hour +
        (inDay % 3600 / 60 * weight .minute + inDay % 60 * weight .second))))) +
      (d.nanos / 1000000 * weight .milli + (d.nanos / 1000 % 1000 * weight .micro +
        d.nanos % 1000 * weight .nano)) := by
  simp only [allItems, List.map_cons, List.map_nil, List.sum_cons, List.sum_nil]
  omega

theorem seconds_allItems (d : Duration) :
    (d.allItems.map fun i => i.count * i.unit.seconds).sum = d.seconds := by
  have hhour : TimeUnit.hour.seconds = 3600 := rfl
  have hminute : TimeUnit.minute.seconds = 60 := rfl
  have hsecond : TimeUnit.second.seconds = 1 := rfl
  have hmilli : TimeUnit.milli.seconds = 0 := rfl
  have hmicro : TimeUnit.micro.seconds = 0 := rfl
  have hnano : TimeUnit.nano.seconds = 0 := rfl
  rw [sum_allItems]
  dsimp only
  rw [hhour, hminute, hsecond, hmilli, hmicro, hnano, Nat.mul_one, Nat.mul_zero, Nat.mul_zero,
    Nat.mul_zero, Nat.add_zero]
  exact add_parts d.seconds TimeUnit.year.seconds TimeUnit.month.seconds TimeUnit.day.seconds

theorem nanos_allItems (d : Duration) :
    (d.allItems.map fun i => i.count * i.unit.nanos).sum = d.nanos := by
  have hyear : TimeUnit.year.nanos = 0 := rfl
  have hmonth : TimeUnit.month.nanos = 0 := rfl
  have hday : TimeUnit.day.nanos = 0 := rfl
  have hhour : TimeUnit.hour.nanos = 0 := rfl
  have hminute : TimeUnit.minute.nanos = 0 := rfl
  have hsecond : TimeUnit.second.nanos = 0 := rfl
  have hmilli : TimeUnit.milli.nanos = 1000000 := rfl
  have hmicro : TimeUnit.micro.nanos = 1000 := rfl
  have hnano : TimeUnit.nano.nanos = 1 := rfl
  rw [sum_allItems]
  dsimp only
  rw [hyear, hmonth, hday, hhour, hminute, hsecond, hmilli, hmicro, hnano, Nat.mul_one,
    Nat.mul_zero, Nat.mul_zero, Nat.mul_zero, Nat.mul_zero, Nat.mul_zero, Nat.mul_zero,
    Nat.add_zero, Nat.zero_add]
  exact add_fractions d.nanos

/-- The parts of a duration make up the whole of it. -/
theorem sum_items (d : Duration) : (d.items.map Item.amount).sum = d.toNanos := by
  rw [items, sum_filter_amount, sum_amount, seconds_allItems, nanos_allItems, toNanos]

theorem isPart_of_mem_items {d : Duration} (h : item ∈ d.items) : item.IsPart := by
  have hall : item ∈ d.allItems := (List.mem_filter.1 h).1
  have hmem : item.count * item.unit.nanos ∈ d.allItems.map fun i => i.count * i.unit.nanos :=
    List.mem_map_of_mem hall
  -- all fractions together are less than a second
  calc item.count * item.unit.nanos
      ≤ (d.allItems.map fun i => i.count * i.unit.nanos).sum :=
        List.single_le_sum (fun _ _ => Nat.zero_le _) _ hmem
    _ = d.nanos := nanos_allItems d
    _ < nanosPerSecond := d.nanos_lt

/-! ## Reading a duration -/

theorem not_isBlank_of_isDigit {c : Char} (h : c.isDigit = true) : Text.isBlank c = false := by
  rcases Text.digit_bounds h with ⟨hlow, hhigh⟩
  have hdigits : ∀ n < 58, 48 ≤ n → Text.blanks.contains n = false := by decide
  exact hdigits c.toNat (Nat.lt_succ_of_le hhigh) hlow

theorem exists_digit_text (item : Item) : ∃ c more, item.text = c :: more ∧ c.isDigit = true := by
  have hdigits : ∀ c ∈ Nat.toDigits 10 item.count, c.isDigit = true := fun c =>
    Nat.isDigit_of_mem_toDigits (by decide) (by decide)
  have hpos : 0 < (Nat.toDigits 10 item.count).length := Nat.length_toDigits_pos
  unfold Item.text
  generalize Nat.toDigits 10 item.count = digits at hdigits hpos
  cases digits with
  | nil => cases hpos
  | cons c digits => exact ⟨c, _, rfl, hdigits c List.mem_cons_self⟩

/-- A text with items is not blank. -/
theorem exists_digit_items {items : List Item} (hne : items ≠ []) :
    ∃ c ∈ [' '].intercalate (items.map Item.text), Text.isBlank c = false := by
  cases items with
  | nil => exact absurd rfl hne
  | cons item rest =>
      rcases exists_digit_text item with ⟨c, more, htext, hdigit⟩
      refine ⟨c, ?_, not_isBlank_of_isDigit hdigit⟩
      rw [List.map_cons, htext]
      cases rest with
      | nil => exact List.mem_append_left _ List.mem_cons_self
      | cons second rest =>
          rw [List.map_cons, List.intercalate_cons_cons, List.append_assoc]
          exact List.mem_append_left _ List.mem_cons_self

theorem toNanos_eq_zero_iff {d : Duration} : d.toNanos = 0 ↔ d.isZero = true := by
  have hsecond : nanosPerSecond ≠ 0 := by decide
  simp only [toNanos, isZero, Nat.add_eq_zero_iff, Nat.mul_eq_zero, Bool.and_eq_true, beq_iff_eq,
    or_iff_left hsecond]

/-- A duration is written as items that make up the whole of it; zero is one item as well. -/
theorem exists_items (d : Duration) : ∃ items : List Item, items ≠ [] ∧
    (∀ item ∈ items, item.IsPart) ∧ (items.map Item.amount).sum = d.toNanos ∧
      d.text.toList = [' '].intercalate (items.map Item.text) := by
  by_cases hzero : d.isZero = true
  · refine ⟨[⟨0, .second⟩], List.cons_ne_nil _ _, ?_, ?_, ?_⟩
    · intro item hitem
      rw [List.mem_singleton.1 hitem, Item.IsPart, Nat.zero_mul]
      decide
    · rw [toNanos_eq_zero_iff.2 hzero]
      simp [Item.amount]
    · rw [text, if_pos hzero]
      rfl
  · refine ⟨d.items, ?_, fun _ => isPart_of_mem_items, d.sum_items, ?_⟩
    · intro hnone
      have hsum := d.sum_items
      rw [hnone] at hsum
      exact hzero (toNanos_eq_zero_iff.1 hsum.symm)
    · rw [text, if_neg hzero, String.toList_intercalate, toList_parts]
      rfl

/-- Every duration is read back from its text. -/
theorem read?_text (d : Duration) : read? d.text = some d := by
  rcases d.exists_items with ⟨items, hne, hparts, hsum, htext⟩
  have hbound : zero.toNanos + (items.map Item.amount).sum ≤ longest.toNanos := by
    rw [hsum]
    exact Nat.le_trans (Nat.le_of_eq (Nat.zero_add _)) d.toNanos_le_longest
  rcases readFrom_items hparts hbound with ⟨last, hlast, htotal⟩
  have hsame : last = d := by
    apply toNanos_injective
    rw [htotal, hsum]
    exact Nat.zero_add _
  have hread : readFrom zero .number d.text.toList = some d := by rw [htext, hlast, hsame]
  have hshort : d.text ≠ "0" := by
    intro hshort
    rw [hshort] at hread
    cases hread
  have hblank : ¬ Text.isAllBlank d.text = true := by
    rcases exists_digit_items hne with ⟨c, hc, hno⟩
    intro hall
    rw [← htext] at hc
    rw [List.all_eq_true.1 hall c hc] at hno
    cases hno
  rw [read?, if_neg hshort, if_neg hblank, hread]

end Duration

end FencedPool
