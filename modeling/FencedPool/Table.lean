/-!
# Table — finite maps kept in ascending key order

The store, the scheduler and decoded objects all answer questions in the order of their keys, so a
table is its list of entries, strictly ascending by `compare`.  One map then has one representation,
and two tables with the same lookups are equal.

This file defines:

* `Entries.insert`, `Entries.find?` — the same operations on a bare ascending list;
* `Table κ α` — such a list with its order in the type;
* the lookup equations `get?_insert`, `get?_erase`, `get?_filter` and extensionality `Table.ext`.
-/

namespace FencedPool

open Std

variable {κ α : Type} [Ord κ]

namespace Entries

/-- Puts a value under a key, in order, in place of what stood there. -/
def insert (k : κ) (v : α) : List (κ × α) → List (κ × α)
  | [] => [(k, v)]
  | e :: rest =>
      match compare k e.1 with
      | .lt => (k, v) :: e :: rest
      | .eq => (k, v) :: rest
      | .gt => e :: insert k v rest

def find? (k : κ) : List (κ × α) → Option α
  | [] => none
  | e :: rest => if compare k e.1 = .eq then some e.2 else find? k rest

def Ascending (l : List (κ × α)) : Prop :=
  l.Pairwise fun a b => compare a.1 b.1 = .lt

theorem mem_insert {k : κ} {v : α} {l : List (κ × α)} {e : κ × α} :
    e ∈ insert k v l → e = (k, v) ∨ e ∈ l := by
  fun_induction insert k v l with
  | case1 => simp
  | case2 f rest h => simp
  | case3 f rest h =>
      intro hm
      rcases List.mem_cons.1 hm with rfl | hm
      · exact .inl rfl
      · exact .inr (List.mem_cons_of_mem _ hm)
  | case4 f rest h ih =>
      intro hm
      rcases List.mem_cons.1 hm with rfl | hm
      · exact .inr List.mem_cons_self
      · exact (ih hm).imp id (List.mem_cons_of_mem _)

theorem ascending_insert [TransOrd κ] {k : κ} {v : α} {l : List (κ × α)} (h : Ascending l) :
    Ascending (insert k v l) := by
  fun_induction insert k v l with
  | case1 => exact List.pairwise_singleton ..
  | case2 f rest hk =>
      refine List.pairwise_cons.2 ⟨fun e he => ?_, h⟩
      rcases List.mem_cons.1 he with rfl | he
      · exact hk
      · exact TransCmp.lt_trans hk ((List.pairwise_cons.1 h).1 e he)
  | case3 f rest hk =>
      obtain ⟨hf, hr⟩ := List.pairwise_cons.1 h
      exact List.pairwise_cons.2 ⟨fun e he => TransCmp.lt_of_eq_of_lt hk (hf e he), hr⟩
  | case4 f rest hk ih =>
      obtain ⟨hf, hr⟩ := List.pairwise_cons.1 h
      refine List.pairwise_cons.2 ⟨fun e he => ?_, ih hr⟩
      rcases mem_insert he with rfl | he
      · exact OrientedCmp.lt_of_gt hk
      · exact hf e he

theorem find?_insert_self [LawfulEqOrd κ] (k : κ) (v : α) (l : List (κ × α)) :
    find? k (insert k v l) = some v := by
  fun_induction insert k v l with
  | case1 => simp [find?]
  | case2 f rest hk => simp [find?]
  | case3 f rest hk => simp [find?]
  | case4 f rest hk ih => simp [find?, hk, ih]

theorem find?_insert_of_ne [LawfulEqOrd κ] {k j : κ} (v : α) (l : List (κ × α)) (h : j ≠ k) :
    find? j (insert k v l) = find? j l := by
  have hjk : compare j k ≠ .eq := fun he => h (LawfulEqOrd.eq_of_compare he)
  fun_induction insert k v l with
  | case1 => simp [find?, hjk]
  | case2 f rest hk => simp [find?, hjk]
  | case3 f rest hk =>
      obtain rfl := LawfulEqOrd.eq_of_compare hk
      simp [find?, hjk]
  | case4 f rest hk ih => simp [find?, ih]

theorem find?_eq_none_of_lt {k : κ} {l : List (κ × α)}
    (h : ∀ e ∈ l, compare k e.1 = .lt) : find? k l = none := by
  induction l with
  | nil => rfl
  | cons e rest ih =>
      have he := h e List.mem_cons_self
      simp [find?, he, ih fun f hf => h f (List.mem_cons_of_mem _ hf)]

theorem find?_eq_some_iff [LawfulEqOrd κ] {l : List (κ × α)} (h : Ascending l) {k : κ} {v : α} :
    find? k l = some v ↔ (k, v) ∈ l := by
  induction l with
  | nil => simp [find?]
  | cons e rest ih =>
      obtain ⟨he, hr⟩ := List.pairwise_cons.1 h
      by_cases hk : compare k e.1 = .eq
      · obtain rfl := LawfulEqOrd.eq_of_compare hk
        have hnot : (e.1, v) ∉ rest := fun hm => by simpa using he _ hm
        simp only [find?, hk, if_true, Option.some.injEq, List.mem_cons, hnot, or_false]
        exact ⟨fun hv => hv ▸ rfl, fun hv => (congrArg Prod.snd hv).symm⟩
      · have hne : (k, v) ≠ e := fun hv => hk (by simp only [← hv]; exact ReflCmp.compare_self)
        simp [find?, hk, ih hr, hne]

/-- Lookups determine an ascending list. -/
theorem eq_of_find?_eq [TransOrd κ] [LawfulEqOrd κ] {l₁ l₂ : List (κ × α)}
    (h₁ : Ascending l₁) (h₂ : Ascending l₂) (h : ∀ k, find? k l₁ = find? k l₂) : l₁ = l₂ := by
  induction l₁ generalizing l₂ with
  | nil =>
      cases l₂ with
      | nil => rfl
      | cons e rest => simpa [find?] using h e.1
  | cons e r₁ ih =>
      cases l₂ with
      | nil => simpa [find?] using h e.1
      | cons f r₂ =>
          obtain ⟨he, hr₁⟩ := List.pairwise_cons.1 h₁
          obtain ⟨hf, hr₂⟩ := List.pairwise_cons.1 h₂
          have hef : (e.1, e.2) ∈ f :: r₂ :=
            (find?_eq_some_iff h₂).1 ((h e.1).symm.trans (by simp [find?]))
          have hfe : (f.1, f.2) ∈ e :: r₁ :=
            (find?_eq_some_iff h₁).1 ((h f.1).trans (by simp [find?]))
          have hhead : e = f := by
            rcases List.mem_cons.1 hef with heq | hm
            · exact heq
            · rcases List.mem_cons.1 hfe with heq | hm'
              · exact heq.symm
              · have := TransCmp.lt_trans (hf _ hm) (he _ hm')
                simp at this
          subst hhead
          have htail : r₁ = r₂ := by
            refine ih hr₁ hr₂ fun k => ?_
            by_cases hk : compare k e.1 = .eq
            · obtain rfl := LawfulEqOrd.eq_of_compare hk
              simp only [find?_eq_none_of_lt he, find?_eq_none_of_lt hf]
            · simpa [find?, hk] using h k
          simp only [htail]

end Entries

/-- A finite map: its entries in ascending key order. -/
structure Table (κ α : Type) [Ord κ] where
  toList : List (κ × α)
  ascending : Entries.Ascending toList := by simp [Entries.Ascending]

namespace Table

def empty : Table κ α := ⟨[], .nil⟩

instance : Inhabited (Table κ α) := ⟨empty⟩

instance [DecidableEq κ] [DecidableEq α] : DecidableEq (Table κ α) := fun s t =>
  decidable_of_iff (s.toList = t.toList) ⟨fun h => by cases s; cases t; cases h; rfl, congrArg _⟩

def get? (t : Table κ α) (k : κ) : Option α := Entries.find? k t.toList

def contains (t : Table κ α) (k : κ) : Bool := (t.get? k).isSome

def keys (t : Table κ α) : List κ := t.toList.map (·.1)

/-- The keys from a given one on, whether or not that is one of them. -/
def keysFrom (t : Table κ α) (k : κ) : List κ := t.keys.dropWhile fun j => compare j k == .lt

def filter (t : Table κ α) (keep : κ → α → Bool) : Table κ α :=
  ⟨t.toList.filter fun e => keep e.1 e.2, t.ascending.sublist List.filter_sublist⟩

def map {β : Type} (t : Table κ α) (f : α → β) : Table κ β :=
  ⟨t.toList.map fun e => (e.1, f e.2), List.pairwise_map.2 (t.ascending.imp id)⟩

def erase (t : Table κ α) (k : κ) : Table κ α := t.filter fun j _ => compare k j != .eq

def insert [TransOrd κ] (t : Table κ α) (k : κ) (v : α) : Table κ α :=
  ⟨Entries.insert k v t.toList, Entries.ascending_insert t.ascending⟩

variable [LawfulEqOrd κ]

theorem get?_eq_some_iff {t : Table κ α} {k : κ} {v : α} :
    t.get? k = some v ↔ (k, v) ∈ t.toList :=
  Entries.find?_eq_some_iff t.ascending

/-- Tables with the same lookups are equal. -/
theorem ext_get? [TransOrd κ] {s t : Table κ α} (h : ∀ k, s.get? k = t.get? k) : s = t := by
  have hl := Entries.eq_of_find?_eq s.ascending t.ascending h
  cases s
  cases t
  cases hl
  rfl

@[simp] theorem get?_insert_self [TransOrd κ] (t : Table κ α) (k : κ) (v : α) :
    (t.insert k v).get? k = some v :=
  Entries.find?_insert_self k v t.toList

theorem get?_insert_of_ne [TransOrd κ] (t : Table κ α) {k j : κ} (v : α) (h : j ≠ k) :
    (t.insert k v).get? j = t.get? j :=
  Entries.find?_insert_of_ne v t.toList h

theorem get?_insert [TransOrd κ] [DecidableEq κ] (t : Table κ α) (k j : κ) (v : α) :
    (t.insert k v).get? j = if j = k then some v else t.get? j := by
  split
  · next h => simp only [h, get?_insert_self]
  · next h => exact get?_insert_of_ne t v h

theorem get?_filter_eq_some_iff {t : Table κ α} {keep : κ → α → Bool} {k : κ} {v : α} :
    (t.filter keep).get? k = some v ↔ t.get? k = some v ∧ keep k v = true := by
  simp only [get?_eq_some_iff, get?_eq_some_iff]
  simp [filter]

theorem get?_map {β : Type} (t : Table κ α) (f : α → β) (k : κ) :
    (t.map f).get? k = (t.get? k).map f := by
  ext w
  rw [get?_eq_some_iff, Option.map_eq_some_iff]
  constructor
  · intro h
    obtain ⟨⟨j, v⟩, hm, he⟩ := List.mem_map.1 h
    obtain ⟨rfl, rfl⟩ := Prod.mk.inj he
    exact ⟨v, get?_eq_some_iff.2 hm, rfl⟩
  · rintro ⟨v, hv, rfl⟩
    exact List.mem_map.2 ⟨(k, v), get?_eq_some_iff.1 hv, rfl⟩

@[simp] theorem get?_erase_self (t : Table κ α) (k : κ) : (t.erase k).get? k = none := by
  cases h : (t.erase k).get? k with
  | none => rfl
  | some v => simpa using (get?_filter_eq_some_iff.1 h).2

theorem get?_erase_of_ne (t : Table κ α) {k j : κ} (h : j ≠ k) :
    (t.erase k).get? j = t.get? j := by
  have hkj : (compare k j != .eq) = true := by
    simpa using fun he => h (LawfulEqOrd.eq_of_compare he).symm
  ext v
  exact get?_filter_eq_some_iff.trans ⟨And.left, fun hv => ⟨hv, hkj⟩⟩

theorem get?_erase [DecidableEq κ] (t : Table κ α) (k j : κ) :
    (t.erase k).get? j = if j = k then none else t.get? j := by
  split
  · next h => simp only [h, get?_erase_self]
  · next h => exact get?_erase_of_ne t h

theorem mem_keys_iff {t : Table κ α} {k : κ} : k ∈ t.keys ↔ t.contains k = true := by
  simp only [contains, Option.isSome_iff_exists, keys, List.mem_map]
  constructor
  · rintro ⟨⟨j, v⟩, hm, rfl⟩
    exact ⟨v, get?_eq_some_iff.2 hm⟩
  · rintro ⟨v, hv⟩
    exact ⟨(k, v), get?_eq_some_iff.1 hv, rfl⟩

end Table

end FencedPool
