import FencedPool.Table

/-!
# Insertion — entries that are put in order one after the other

An object is read member by member, and each is put in its place among those before it.  Members
that ascend stay as they are; members with different keys are found in the result wherever they
were.

This file defines `Entries.insertAll`.
-/

namespace FencedPool

open Std

namespace Entries

variable {κ α : Type} [Ord κ]

/-- Puts the entries of a list among others one after the other. -/
def insertAll (entries start : List (κ × α)) : List (κ × α) :=
  entries.foldl (fun l e => insert e.1 e.2 l) start

/-- An entry behind all others is put at the end. -/
theorem insert_eq_append [OrientedOrd κ] {k : κ} {v : α} {l : List (κ × α)}
    (h : ∀ e ∈ l, compare e.1 k = .lt) : insert k v l = l ++ [(k, v)] := by
  induction l with
  | nil => rfl
  | cons e l ih =>
      rcases List.forall_mem_cons.1 h with ⟨he, hl⟩
      rw [insert, OrientedCmp.gt_of_lt he]
      dsimp only
      rw [ih hl, List.cons_append]

/-- Ascending entries stay as they are. -/
theorem insertAll_ascending [OrientedOrd κ] {l start : List (κ × α)}
    (h : Ascending (start ++ l)) : insertAll l start = start ++ l := by
  induction l generalizing start with
  | nil => exact (List.append_nil _).symm
  | cons e l ih =>
      have hbehind : ∀ f ∈ start, compare f.1 e.1 = .lt := fun f hf =>
        (List.pairwise_append.1 h).2.2 f hf e List.mem_cons_self
      rw [List.append_cons] at h ⊢
      calc
        insertAll (e :: l) start = insertAll l (insert e.1 e.2 start) := rfl
        _ = insertAll l (start ++ [e]) := by rw [insert_eq_append hbehind]
        _ = start ++ [e] ++ l := ih h

theorem find?_append (k : κ) (l l' : List (κ × α)) :
    find? k (l ++ l') = (find? k l).or (find? k l') := by
  induction l with
  | nil => rfl
  | cons e l ih =>
      simp only [List.cons_append, find?]
      split
      · rfl
      · exact ih

theorem find?_eq_none_of_ne [LawfulEqOrd κ] {k : κ} {l : List (κ × α)} (h : ∀ e ∈ l, e.1 ≠ k) :
    find? k l = none := by
  induction l with
  | nil => rfl
  | cons e l ih =>
      rcases List.forall_mem_cons.1 h with ⟨he, hl⟩
      rw [find?, if_neg fun hk => he (LawfulEqOrd.eq_of_compare hk).symm]
      exact ih hl

theorem mem_of_find? [LawfulEqOrd κ] {k : κ} {v : α} {l : List (κ × α)}
    (h : find? k l = some v) : (k, v) ∈ l := by
  induction l with
  | nil => cases h
  | cons e l ih =>
      rw [find?] at h
      split at h
      · next hk =>
          cases h
          rw [LawfulEqOrd.eq_of_compare hk]
          exact List.mem_cons_self
      · exact List.mem_cons_of_mem _ (ih h)

/-- Of entries with different keys each is found where they have been put in order. -/
theorem find?_insertAll [TransOrd κ] [LawfulEqOrd κ] {entries start : List (κ × α)}
    (h : entries.Pairwise fun a b => a.1 ≠ b.1) (k : κ) :
    find? k (insertAll entries start) = (find? k entries).or (find? k start) := by
  induction entries generalizing start with
  | nil => rfl
  | cons e entries ih =>
      rcases List.pairwise_cons.1 h with ⟨he, hentries⟩
      change find? k (insertAll entries (insert e.1 e.2 start)) = _
      rw [ih hentries, find?]
      by_cases hk : compare k e.1 = .eq
      · obtain rfl := LawfulEqOrd.eq_of_compare hk
        rw [if_pos hk, find?_eq_none_of_ne fun f hf => (he f hf).symm, find?_insert_self]
        rfl
      · have hne : k ≠ e.1 := fun heq => hk (heq ▸ ReflCmp.compare_self)
        rw [if_neg hk, find?_insert_of_ne e.2 start hne]

end Entries

end FencedPool
