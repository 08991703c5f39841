import FencedPool.Proofs.Text.Utf8
import Mathlib.Tactic.SplitIfs

/-!
# Order — texts and their bytes in ascending order

Texts with a common beginning stand together in ascending order: they come first among all texts
from the beginning on.  So whoever reads ascending texts from there, and stops at the first one
without the beginning, has read all that have it.  The bytes of texts ascend as the texts do.

The main statements are `Text.scan_eq_filter` and `Utf8.bytes_lt_bytes_iff`.
-/

namespace FencedPool

/-! ## Texts with a common beginning -/

namespace Text

theorem not_lt_of_isPrefix {stem text : List Char} (h : stem <+: text) : ¬ text < stem := by
  rcases h with ⟨rest, rfl⟩
  induction stem with
  | nil => exact List.not_lt_nil _
  | cons c stem ih =>
      rw [List.cons_append, List.cons_lt_cons_iff]
      rintro (hlt | ⟨-, hlt⟩)
      · exact absurd hlt (Std.Irrefl.irrefl c)
      · exact ih hlt

/-- What lies between a beginning and a text that has it has the beginning too. -/
theorem isPrefix_of_between {stem text later : List Char} (hfrom : ¬ text < stem)
    (hbefore : text < later) (h : stem <+: later) : stem <+: text := by
  rcases h with ⟨rest, rfl⟩
  induction stem generalizing text with
  | nil => exact List.nil_prefix
  | cons c stem ih =>
      cases text with
      | nil => exact absurd (List.nil_lt_cons c stem) hfrom
      | cons d text =>
          rw [List.cons_append, List.cons_lt_cons_iff] at hbefore
          rw [List.cons_lt_cons_iff] at hfrom
          rcases hbefore with hlt | ⟨rfl, hbefore⟩
          · exact absurd (.inl hlt) hfrom
          · exact List.prefix_cons_inj _ |>.2 (ih (fun hlt => hfrom (.inr ⟨rfl, hlt⟩)) hbefore)

variable {stem : List Char} {isBefore hasStem : String → Bool} {keys : List String}

/-- Among ascending texts from a beginning on, those that have it come first. -/
theorem takeWhile_eq_filter (hstem : ∀ k, hasStem k = true ↔ stem <+: k.toList)
    (hkeys : keys.Pairwise (· < ·)) (hfrom : ∀ k ∈ keys, ¬ k.toList < stem) :
    keys.takeWhile hasStem = keys.filter hasStem := by
  induction keys with
  | nil => rfl
  | cons k keys ih =>
      rcases List.pairwise_cons.1 hkeys with ⟨hk, hkeys⟩
      rcases List.forall_mem_cons.1 hfrom with ⟨hkFrom, hkeysFrom⟩
      by_cases hhas : hasStem k = true
      · rw [List.takeWhile_cons_of_pos hhas, List.filter_cons_of_pos hhas, ih hkeys hkeysFrom]
      · -- all later texts lie behind one that has left the beginning
        rw [List.takeWhile_cons_of_neg hhas, List.filter_cons_of_neg hhas, eq_comm,
          List.filter_eq_nil_iff]
        intro j hj hjStem
        rw [hstem] at hhas hjStem
        exact hhas (isPrefix_of_between hkFrom (String.lt_iff.1 (hk j hj)) hjStem)

/-- Reading ascending texts from a beginning on, up to the first one without it, finds all that
have it. -/
theorem scan_eq_filter (hbefore : ∀ k, isBefore k = true ↔ k.toList < stem)
    (hstem : ∀ k, hasStem k = true ↔ stem <+: k.toList) (hkeys : keys.Pairwise (· < ·)) :
    (keys.dropWhile isBefore).takeWhile hasStem = keys.filter hasStem := by
  induction keys with
  | nil => rfl
  | cons k keys ih =>
      rcases List.pairwise_cons.1 hkeys with ⟨hk, hrest⟩
      by_cases hlt : isBefore k = true
      · have hnot : ¬ hasStem k = true := fun hhas =>
          not_lt_of_isPrefix ((hstem k).1 hhas) ((hbefore k).1 hlt)
        rw [List.dropWhile_cons_of_pos hlt, List.filter_cons_of_neg hnot, ih hrest]
      · rw [List.dropWhile_cons_of_neg hlt]
        rw [hbefore] at hlt
        refine takeWhile_eq_filter hstem hkeys (List.forall_mem_cons.2 ⟨hlt, fun j hj hjlt => ?_⟩)
        exact hlt (List.lt_trans (String.lt_iff.1 (hk j hj)) hjlt)

end Text

/-! ## Bytes -/

namespace Utf8

/-- The bytes of a smaller character come first, whatever follows. -/
theorem encodeChar_append_lt {c d : Char} (h : c < d) (after after' : Bytes) :
    encodeChar c ++ after < encodeChar d ++ after' := by
  have hc := toNat_lt c
  have hd := toNat_lt d
  have hlt : c.toNat < d.toNat := h
  unfold encodeChar
  dsimp only
  generalize c.toNat = n at hc hlt
  generalize d.toNat = m at hd hlt
  -- a character with more bytes announces so in its first one
  split_ifs <;>
    simp (disch := omega) only [List.cons_append, List.nil_append, List.cons_lt_cons_iff,
      UInt8.lt_iff_toNat_lt, ← UInt8.toNat_inj, toNat_toUInt8] <;>
    omega

theorem encode_lt_encode {first second : List Char} (h : first < second) :
    encode first < encode second := by
  induction first generalizing second with
  | nil =>
      cases second with
      | nil => exact absurd h (List.not_lt_nil _)
      | cons d second =>
          rcases encodeChar_eq d with ⟨lead, more, hbytes, -⟩
          unfold encode
          rw [List.flatMap_cons, hbytes]
          exact List.nil_lt_cons _ _
  | cons c first ih =>
      cases second with
      | nil => exact absurd h (List.not_lt_nil _)
      | cons d second =>
          unfold encode at ih ⊢
          rw [List.flatMap_cons, List.flatMap_cons]
          rcases List.cons_lt_cons_iff.1 h with hlt | ⟨rfl, hlt⟩
          · exact encodeChar_append_lt hlt _ _
          · exact List.append_left_lt (ih hlt)

/-- Bytes ascend as texts do. -/
theorem bytes_lt_bytes_iff {first second : String} :
    bytes first < bytes second ↔ first < second := by
  have hmono : ∀ {a b : String}, a < b → bytes a < bytes b := fun hab =>
    encode_lt_encode (String.lt_iff.1 hab)
  refine ⟨fun h => ?_, hmono⟩
  rcases Std.lt_trichotomy first second with hlt | rfl | hgt
  · exact hlt
  · exact absurd h (List.lt_irrefl _)
  · exact absurd (List.lt_trans h (hmono hgt)) (List.lt_irrefl _)

end Utf8

end FencedPool
