import FencedPool.Proofs.Json.Layout
import FencedPool.Proofs.Json.Numerals
import FencedPool.Proofs.Table.Insertion

/-!
# Values — a value is read back from its text

A value whose numbers are integers of 64 bits is written so that each of its parts is read back at
its place.  Reading limits how deeply arrays and objects are nested and puts the members of an
object in order, so exactly those values are read back that respect both; and what was read respects
both.

This file defines:

* `Json.OnlyIntegers` — that all numbers in a value are integers of 64 bits;
* `Json.Storable` — the values that are read back as they were written;
* `Json.ReadsAs` — what a value is read as, by the first symbol of its text.

The main statements are `Json.readValue_compact`, `Json.storable_of_readValue` and
`Json.canonical_of_parse`.
-/

namespace FencedPool

namespace Json

/-- Whether all numbers in a value are integers of 64 bits. -/
inductive OnlyIntegers : Json → Prop
  | null : OnlyIntegers .null
  | bool (b : Bool) : OnlyIntegers (.bool b)
  | integer {i : Int} (h : IsWord i) : OnlyIntegers (.num (.integer i))
  | str (s : String) : OnlyIntegers (.str s)
  | arr {items : List Json} (h : ∀ v ∈ items, OnlyIntegers v) : OnlyIntegers (.arr items)
  | obj {members : List (String × Json)} (h : ∀ e ∈ members, OnlyIntegers e.2) :
      OnlyIntegers (.obj members)

/-- Whether a value is read back as it was written: its numbers are integers of 64 bits, the members
of its objects ascend, and no more than so many arrays and objects are nested in it. -/
inductive Storable : Nat → Json → Prop
  | null (depth : Nat) : Storable depth .null
  | bool (depth : Nat) (b : Bool) : Storable depth (.bool b)
  | integer (depth : Nat) {i : Int} (h : IsWord i) : Storable depth (.num (.integer i))
  | str (depth : Nat) (s : String) : Storable depth (.str s)
  | arr {depth : Nat} {items : List Json} (h : ∀ v ∈ items, Storable depth v) :
      Storable (depth + 1) (.arr items)
  | obj {depth : Nat} {members : List (String × Json)} (order : Entries.Ascending members)
      (h : ∀ e ∈ members, Storable depth e.2) : Storable (depth + 1) (.obj members)

variable {depth : Nat} {v : Json}

/-! ## Reading what was written -/

theorem Ends.stops {rest : List Symbol} (h : Ends rest) : Numeral.Stops rest := by
  intro x hx
  cases rest with
  | nil => cases hx
  | cons y rest =>
      cases hx
      rcases h with rfl | rfl | rfl <;> decide

theorem opens_integer (i : Int) : Opens (.num (.integer i)) := by
  have hdigit : ∀ c : Char, c.isDigit = true → isSpace (some c) = false ∧ c ≠ ']' ∧ c ≠ ',' := by
    intro c hc
    have hbounds := Text.digit_bounds hc
    have hne : ∀ d : Char, d.toNat < 48 ∨ 57 < d.toNat → c ≠ d := by
      rintro d hd rfl
      omega
    refine ⟨?_, hne ']' (by decide), hne ',' (by decide)⟩
    simp only [isSpace, Bool.or_eq_false_iff, beq_eq_false_iff_ne, ne_eq, Option.some.injEq]
    exact ⟨⟨⟨hne ' ' (by decide), hne '\n' (by decide)⟩, hne '\t' (by decide)⟩,
      hne '\r' (by decide)⟩
  have htext : (Json.num (.integer i)).compact = (Text.signedDecimal i).toList := rfl
  unfold Opens
  rw [htext, Text.signedDecimal]
  split
  · refine ⟨'-', (Text.decimal i.natAbs).toList, ?_, by decide, by decide, by decide⟩
    rw [String.toList_append]
    rfl
  · rw [Text.decimal, String.toList_ofList]
    cases hdigits : Nat.toDigits 10 i.natAbs with
    | nil => exact absurd hdigits Nat.toDigits_ne_nil
    | cons c more =>
        have hc : c ∈ Nat.toDigits 10 i.natAbs := hdigits ▸ List.mem_cons_self
        exact ⟨c, more, rfl, hdigit c (Nat.isDigit_of_mem_toDigits (by decide) (by decide) hc)⟩

theorem Storable.opens (h : Storable depth v) : Opens v := by
  cases h with
  | null => exact ⟨'n', _, rfl, by decide, by decide, by decide⟩
  | bool _ b =>
      cases b with
      | true => exact ⟨'t', _, rfl, by decide, by decide, by decide⟩
      | false => exact ⟨'f', _, rfl, by decide, by decide, by decide⟩
  | @integer _ i => exact opens_integer i
  | str _ s => exact opens_str s
  | @arr _ items =>
      cases items with
      | nil => exact ⟨'[', _, rfl, by decide, by decide, by decide⟩
      | cons w items => exact ⟨'[', _, rfl, by decide, by decide, by decide⟩
  | @obj _ members =>
      cases members with
      | nil => exact ⟨'\x7b', _, rfl, by decide, by decide, by decide⟩
      | cons e members => exact ⟨'\x7b', _, rfl, by decide, by decide, by decide⟩

/-- The item of an array that is read without a schema; the items are gathered in reverse. -/
def itemWithin (depth : Nat) (acc : List Json) : Reader (List Json) := fun s =>
  (readValue depth s).map fun r => (r.1 :: acc, r.2)

/-- The member of an object that is read without a schema. -/
def memberWithin (depth : Nat) (acc : List (String × Json)) (key : String) :
    Reader (List (String × Json)) := fun s =>
  match colon s with
  | .error e => .error e
  | .ok s' => (readValue depth s').map fun r => (Entries.insert key r.1 acc, r.2)

theorem readValue_list (depth : Nat) (rest : List Symbol) :
    readValue (depth + 1) (some '[' :: rest) =
      (items (itemWithin depth) [] rest).map fun r => (.arr r.1.reverse, r.2) := by
  rw [readValue]
  rfl

theorem readValue_object (depth : Nat) (rest : List Symbol) :
    readValue (depth + 1) (some '\x7b' :: rest) =
      (members (memberWithin depth) [] rest).map fun r => (.obj r.1, r.2) := by
  rw [readValue]
  rfl

/-- Whether a value is read back where its text ends. -/
def IsReadBack (depth : Nat) (v : Json) : Prop :=
  ∀ rest, Ends rest → readValue depth (v.compact.map some ++ rest) = .ok (v, rest)

theorem readsItems_within {values : List Json}
    (h : ∀ v ∈ values, Opens v ∧ IsReadBack depth v) (acc : List Json) :
    ReadsItems (itemWithin depth) acc values (values.reverse ++ acc) := by
  induction values generalizing acc with
  | nil => exact .nil acc
  | cons v values ih =>
      rcases List.forall_mem_cons.1 h with ⟨⟨hopens, hv⟩, hvalues⟩
      rw [List.reverse_cons, List.append_assoc]
      refine .cons hopens (fun rest hrest => ?_) (ih hvalues (v :: acc))
      rw [itemWithin, hv rest hrest]
      rfl

theorem readsMembers_within {written : List (String × Json)}
    (h : ∀ e ∈ written, IsReadBack depth e.2) (acc : List (String × Json)) :
    ReadsMembers (memberWithin depth) acc written (Entries.insertAll written acc) := by
  induction written generalizing acc with
  | nil => exact .nil acc
  | cons e written ih =>
      rcases List.forall_mem_cons.1 h with ⟨he, hwritten⟩
      refine .cons (fun rest hrest => ?_) (ih hwritten (Entries.insert e.1 e.2 acc))
      change (readValue depth (e.2.compact.map some ++ rest)).map _ = _
      rw [he rest hrest]
      rfl

theorem compact_arr (values : List Json) :
    compact (.arr values) = '[' :: (compact (.arr values)).tail := by
  cases values with
  | nil => rfl
  | cons v values => rfl

theorem compact_obj (written : List (String × Json)) :
    compact (.obj written) = '\x7b' :: (compact (.obj written)).tail := by
  cases written with
  | nil => rfl
  | cons e written => rfl

/-- The members of an object are put in order while they are read. -/
theorem readValue_obj {written : List (String × Json)}
    (h : ∀ e ∈ written, IsReadBack depth e.2) (rest : List Symbol) :
    readValue (depth + 1) ((compact (.obj written)).map some ++ rest) =
      .ok (.obj (Entries.insertAll written []), rest) := by
  have hmembers := members_written (readsMembers_within h []) rest
  rw [compact_obj, List.map_cons, List.cons_append, readValue_object, hmembers]
  rfl

/-- A value that can be stored is read back from its text. -/
theorem readValue_compact (h : Storable depth v) : IsReadBack depth v := by
  -- by the structure of the value; each bracket uses up one level of nesting
  induction h with
  | null depth =>
      intro rest _
      rw [readValue]
      rfl
  | bool depth b =>
      intro rest _
      cases b with
      | true =>
          rw [readValue]
          rfl
      | false =>
          rw [readValue]
          rfl
  | integer depth hi => exact fun rest hrest => readValue_integer hi depth hrest.stops
  | str depth s =>
      intro rest _
      have hread := read_key s rest
      rw [readValue]
      change (Text.read ((Text.render s).tail.map some ++ rest)).map _ = _
      rw [hread]
      rfl
  | @arr depth values hvalues ih =>
      intro rest _
      have hitems := items_written
        (readsItems_within (fun v hv => ⟨(hvalues v hv).opens, ih v hv⟩) []) rest
      rw [compact_arr, List.map_cons, List.cons_append, readValue_list, hitems]
      simp only [Except.map, List.append_nil, List.reverse_reverse]
  | @obj depth written order hwritten ih =>
      intro rest _
      have hsame : Entries.insertAll written [] = [] ++ written := Entries.insertAll_ascending order
      rw [readValue_obj ih rest, hsame, List.nil_append]

/-! ## What was read -/

/-- What is read as a value, by the first symbol behind the blanks. -/
inductive ReadsAs (s rest : List Symbol) : Nat → Json → Prop
  | null {depth : Nat} {more : List Symbol} (head : skipSpace s = some 'n' :: more)
      (tail : word ['u', 'l', 'l'] more = .ok rest) : ReadsAs s rest depth .null
  | true {depth : Nat} {more : List Symbol} (head : skipSpace s = some 't' :: more)
      (tail : word ['r', 'u', 'e'] more = .ok rest) : ReadsAs s rest depth (.bool true)
  | false {depth : Nat} {more : List Symbol} (head : skipSpace s = some 'f' :: more)
      (tail : word ['a', 'l', 's', 'e'] more = .ok rest) : ReadsAs s rest depth (.bool false)
  | negative {depth : Nat} {more : List Symbol} {n : Number} (head : skipSpace s = some '-' :: more)
      (tail : Numeral.read true more = .ok (n, rest)) : ReadsAs s rest depth (.num n)
  | number {depth : Nat} {x : Symbol} {d : Nat} {more : List Symbol} {n : Number}
      (head : skipSpace s = x :: more) (digit : Numeral.digit? x = some d)
      (tail : Numeral.read false (x :: more) = .ok (n, rest)) : ReadsAs s rest depth (.num n)
  | str {depth : Nat} {more : List Symbol} {text : String} (head : skipSpace s = some '"' :: more)
      (tail : Text.read more = .ok (text, rest)) : ReadsAs s rest depth (.str text)
  | arr {depth : Nat} {more : List Symbol} {acc : List Json} (head : skipSpace s = some '[' :: more)
      (tail : items (itemWithin depth) [] more = .ok (acc, rest)) :
      ReadsAs s rest (depth + 1) (.arr acc.reverse)
  | obj {depth : Nat} {more : List Symbol} {acc : List (String × Json)}
      (head : skipSpace s = some '\x7b' :: more)
      (tail : members (memberWithin depth) [] more = .ok (acc, rest)) :
      ReadsAs s rest (depth + 1) (.obj acc)

variable {s rest : List Symbol}

theorem readsAs_of_readValue (h : readValue depth s = .ok (v, rest)) : ReadsAs s rest depth v := by
  rw [readValue] at h
  split at h
  · cases h
  · next hhead =>
      rcases map_eq_ok_iff.1 h with ⟨_, htail, heq⟩
      cases heq
      exact .null hhead htail
  · next hhead =>
      rcases map_eq_ok_iff.1 h with ⟨_, htail, heq⟩
      cases heq
      exact .true hhead htail
  · next hhead =>
      rcases map_eq_ok_iff.1 h with ⟨_, htail, heq⟩
      cases heq
      exact .false hhead htail
  · next hhead =>
      rcases map_eq_ok_iff.1 h with ⟨_, htail, heq⟩
      cases heq
      exact .negative hhead htail
  · next hhead =>
      rcases map_eq_ok_iff.1 h with ⟨_, htail, heq⟩
      cases heq
      exact .str hhead htail
  · next hhead =>
      cases depth with
      | zero => cases h
      | succ depth =>
          rcases map_eq_ok_iff.1 h with ⟨_, htail, heq⟩
          cases heq
          exact .arr hhead htail
  · next hhead =>
      cases depth with
      | zero => cases h
      | succ depth =>
          rcases map_eq_ok_iff.1 h with ⟨_, htail, heq⟩
          cases heq
          exact .obj hhead htail
  · next x more _ _ _ _ _ _ _ hhead =>
      split at h
      · next hdigit =>
          rcases Option.isSome_iff_exists.1 hdigit with ⟨d, hd⟩
          rcases map_eq_ok_iff.1 h with ⟨_, htail, heq⟩
          cases heq
          exact .number hhead hd htail
      · cases h

section Loops

variable {σ : Type} {P : σ → Prop} {acc last : σ}

/-- What every item keeps is kept by the loop over all of them. -/
theorem foldItems_preserves {item : σ → Reader σ}
    (hitem : ∀ acc s next rest, item acc s = .ok (next, rest) → P acc → P next) {rounds : Nat}
    {first : Bool} (h : foldItems item rounds first acc s = .ok (last, rest)) (hacc : P acc) :
    P last := by
  induction rounds generalizing first acc s with
  | zero => cases h
  | succ rounds ih =>
      rw [foldItems] at h
      split at h
      · cases h
      · cases h
        exact hacc
      · split at h
        · cases h
        · next hnext => exact ih h (hitem _ _ _ _ hnext hacc)

/-- What every member keeps is kept by the loop over all of them. -/
theorem foldMembers_preserves {member : σ → String → Reader σ}
    (hmember : ∀ acc key s next rest, member acc key s = .ok (next, rest) → P acc → P next)
    {rounds : Nat} {first : Bool}
    (h : foldMembers member rounds first acc s = .ok (last, rest)) (hacc : P acc) : P last := by
  induction rounds generalizing first acc s with
  | zero => cases h
  | succ rounds ih =>
      rw [foldMembers] at h
      split at h
      · cases h
      · cases h
        exact hacc
      · split at h
        · cases h
        · split at h
          · cases h
          · next hnext => exact ih h (hmember _ _ _ _ _ hnext hacc)

end Loops

/-- The items of an array that was read have what every value has that was read. -/
theorem forall_mem_items {Q : Json → Prop} {acc : List Json}
    (hQ : ∀ {s v rest}, readValue depth s = .ok (v, rest) → Q v)
    (h : items (itemWithin depth) [] s = .ok (acc, rest)) : ∀ v ∈ acc, Q v :=
  foldItems_preserves (P := fun acc : List Json => ∀ v ∈ acc, Q v)
    (fun acc s next rest hnext hacc => by
      rcases map_eq_ok_iff.1 hnext with ⟨⟨v, after⟩, hread, heq⟩
      cases heq
      exact List.forall_mem_cons.2 ⟨hQ hread, hacc⟩)
    h (fun _ hv => absurd hv List.not_mem_nil)

/-- The members of an object that was read ascend, and their values have what every value has that
was read. -/
theorem forall_mem_members {Q : Json → Prop} {acc : List (String × Json)}
    (hQ : ∀ {s v rest}, readValue depth s = .ok (v, rest) → Q v)
    (h : members (memberWithin depth) [] s = .ok (acc, rest)) :
    Entries.Ascending acc ∧ ∀ e ∈ acc, Q e.2 :=
  foldMembers_preserves
    (P := fun acc : List (String × Json) => Entries.Ascending acc ∧ ∀ e ∈ acc, Q e.2)
    (fun acc key s next rest hnext hacc => by
      unfold memberWithin at hnext
      split at hnext
      · cases hnext
      · rcases map_eq_ok_iff.1 hnext with ⟨⟨v, after⟩, hread, heq⟩
        cases heq
        refine ⟨Entries.ascending_insert hacc.1, fun e he => ?_⟩
        rcases Entries.mem_insert he with rfl | he
        · exact hQ hread
        · exact hacc.2 e he)
    h ⟨.nil, fun _ he => absurd he List.not_mem_nil⟩

/-- What holds of all values without brackets and is passed on to arrays, and to objects whose
members ascend, holds of every value that was read. -/
theorem readValue_induction {Q : Nat → Json → Prop} (hnull : ∀ depth, Q depth .null)
    (hbool : ∀ depth b, Q depth (.bool b)) (hnum : ∀ depth n, Q depth (.num n))
    (hstr : ∀ depth text, Q depth (.str text))
    (harr : ∀ depth values, (∀ v ∈ values, Q depth v) → Q (depth + 1) (.arr values))
    (hobj : ∀ depth written, Entries.Ascending written → (∀ e ∈ written, Q depth e.2) →
      Q (depth + 1) (.obj written))
    (h : readValue depth s = .ok (v, rest)) : Q depth v := by
  -- the values inside the brackets are read with one level less
  induction depth using Nat.strongRecOn generalizing s v rest with
  | ind depth ih =>
      cases readsAs_of_readValue h with
      | null _ _ => exact hnull _
      | true _ _ => exact hbool _ _
      | false _ _ => exact hbool _ _
      | negative _ _ => exact hnum _ _
      | number _ _ _ => exact hnum _ _
      | str _ _ => exact hstr _ _
      | @arr inner _ _ _ hitems =>
          have hall := forall_mem_items (ih inner (Nat.lt_succ_self _)) hitems
          exact harr _ _ fun w hw => hall w (List.mem_reverse.1 hw)
      | @obj inner _ _ _ hmembers =>
          have hall := forall_mem_members (ih inner (Nat.lt_succ_self _)) hmembers
          exact hobj _ _ hall.1 hall.2

/-- What was read can be stored, if its numbers are integers. -/
theorem storable_of_readValue (h : readValue depth s = .ok (v, rest)) (hv : OnlyIntegers v) :
    Storable depth v := by
  refine readValue_induction (Q := fun depth v => OnlyIntegers v → Storable depth v)
    ?_ ?_ ?_ ?_ ?_ ?_ h hv
  · exact fun depth _ => .null depth
  · exact fun depth b _ => .bool depth b
  · intro depth n hn
    cases hn with
    | integer hi => exact .integer depth hi
  · exact fun depth text _ => .str depth text
  · intro depth values hall hvalues
    cases hvalues with
    | arr hints => exact .arr fun w hw => hall w hw (hints w hw)
  · intro depth written order hall hwritten
    cases hwritten with
    | obj hints => exact .obj order fun e he => hall e he (hints e he)

/-- In everything that was read, the members of objects ascend. -/
theorem canonical_of_readValue (h : readValue depth s = .ok (v, rest)) : Canonical v :=
  readValue_induction (Q := fun _ v => Canonical v) (fun _ => .null) (fun _ => .bool)
    (fun _ => .num) (fun _ => .str) (fun _ _ => .arr) (fun _ _ => .obj) h

/-! ## Whole texts -/

/-- An object is read back from its text with its members put in order. -/
theorem parse_obj {written : List (String × Json)}
    (h : ∀ e ∈ written, Storable (maxDepth - 1) e.2) :
    parse (Utf8.bytes (Json.obj written).text) = .ok (.obj (Entries.insertAll written [])) := by
  have hread := readValue_obj (fun e he => readValue_compact (h e he)) []
  rw [List.append_nil] at hread
  unfold parse Utf8.bytes Json.text
  rw [Utf8.symbols_encode, String.toList_ofList]
  change (readValue (maxDepth - 1 + 1) _).bind finish = _
  rw [hread]
  rfl

theorem exists_readValue_of_parse {data : Bytes} (h : parse data = .ok v) :
    ∃ rest, readValue maxDepth (Utf8.symbols data) = .ok (v, rest) := by
  unfold parse at h
  cases hread : readValue maxDepth (Utf8.symbols data) with
  | error e =>
      rw [hread] at h
      cases h
  | ok r =>
      rw [hread] at h
      change (if skipSpace r.2 = [] then Except.ok r.1 else _) = _ at h
      split at h
      · cases h
        exact ⟨r.2, rfl⟩
      · cases h

/-- However the members of an object are ordered in a text, they are read in the order of their
keys, at every depth. -/
theorem canonical_of_parse {data : Bytes} (h : parse data = .ok v) : Canonical v := by
  rcases exists_readValue_of_parse h with ⟨rest, hread⟩
  exact canonical_of_readValue hread

/-- The members of an object that was read ascend, and those with integers only can be stored. -/
theorem storable_of_parse {data : Bytes} {written : List (String × Json)}
    (h : parse data = .ok (.obj written)) :
    Entries.Ascending written ∧
      ∀ e ∈ written, OnlyIntegers e.2 → Storable (maxDepth - 1) e.2 := by
  rcases exists_readValue_of_parse h with ⟨rest, hread⟩
  change readValue (maxDepth - 1 + 1) _ = _ at hread
  cases readsAs_of_readValue hread with
  | obj _ hmembers => exact forall_mem_members storable_of_readValue hmembers

end Json

end FencedPool
