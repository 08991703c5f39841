import FencedPool.Proofs.Json.Reading
import FencedPool.Proofs.Node.Members

/-!
# Agreement — metadata say what the object without a schema says

The metadata of a node and the plain object at a path are read from the same bytes.  Both readings
accept and refuse the same texts, but that the known fields must have values of their types, and
what they accept they read alike: each field is the value of its member, and the attributes are all
other members.  A text may name a key many times, and then its last member counts for both.

This file defines:

* `NodeMetadata.WellTyped` — that the known fields of an object have values of their types;
* `NodeMetadata.TakenFrom` — that metadata are an object without a schema, field by field;
* `Json.lastMember?` and `Json.valueOf?` — the last member of a key in a text, and what it is read
  as.

The main statement is `typed_agrees`.
-/

namespace FencedPool

namespace Json

/-! ## The last member of a key -/

/-- The text of the last member of a key. -/
def lastMember? (key : String) : List (String × List Symbol) → Option (List Symbol)
  | [] => none
  | m :: ms => (lastMember? key ms).or (if m.1 = key then some m.2 else none)

/-- What the text of a member is read as by itself. -/
def valueOf? (t : List Symbol) : Option Json :=
  match readValue (maxDepth - 1) t with
  | .ok (v, []) => some v
  | _ => none

theorem IsRead.valueOf? {t : List Symbol} {v : Json} (h : IsRead (maxDepth - 1) t v) :
    valueOf? t = some v := by
  unfold Json.valueOf?
  rw [h.1.alone]

/-- A later member of a key takes the place of an earlier one. -/
theorem GathersWithin.find?_last {acc last : List (String × Json)}
    {ms : List (String × List Symbol)} (h : GathersWithin (maxDepth - 1) acc ms last)
    (key : String) :
    Entries.find? key last = (lastMember? key ms).elim (Entries.find? key acc) valueOf? := by
  induction h with
  | nil acc => rfl
  | @cons acc next last name t ms head _ ih =>
      rcases head with ⟨v, hv, rfl⟩
      rw [ih, lastMember?]
      cases lastMember? key ms with
      -- a later member of the key decides alone
      | some t' => rfl
      | none =>
          rw [Option.none_or, Option.elim_none]
          by_cases hname : name = key
          · rw [if_pos hname, ← hname, Entries.find?_insert_self, Option.elim_some, hv.valueOf?]
          · rw [if_neg hname, Entries.find?_insert_of_ne v acc (Ne.symm hname), Option.elim_none]

/-- What an object has under a key is what the last member of the key in its text is read as. -/
theorem find?_of_objectText {data : Bytes} {l : List (String × Json)}
    (h : parse data = .ok (.obj l)) :
    ∃ ms, ObjectText (Utf8.symbols data) ms ∧ (∀ m ∈ ms, Readable m.2) ∧
      ∀ key, Entries.find? key l = (lastMember? key ms).bind valueOf? := by
  rcases exists_objectText h with ⟨ms, htext, hlast⟩
  refine ⟨ms, htext, fun m hm => ?_, fun key => ?_⟩
  · rcases hlast.forall_isRead m hm with ⟨v, hv⟩
    exact ⟨v, hv.1.alone⟩
  · rw [hlast.find?_last]
    cases lastMember? key ms with
    | none => rfl
    | some t => rfl

end Json

open Json

namespace NodeMetadata

variable {m : NodeMetadata} {l : List (String × Json)} {value? : Option Json}

/-! ## Fields -/

/-- Whether a text field may have a value: none, `null`, or a string. -/
def MayBeText (value? : Option Json) : Prop :=
  value? = none ∨ value? = some .null ∨ ∃ text, value? = some (.str text)

/-- Whether the port may have a value: none, `null`, or an integer of 16 bits. -/
def MayBePort (value? : Option Json) : Prop :=
  value? = none ∨ value? = some .null ∨
    ∃ i : Int, 0 ≤ i ∧ i ≤ 65535 ∧ value? = some (.num (.integer i))

/-- Whether the known fields of an object have values of their types. -/
structure WellTyped (l : List (String × Json)) : Prop where
  label : MayBeText (Entries.find? "label" l)
  state : MayBeText (Entries.find? "state" l)
  interfaceIp : MayBeText (Entries.find? "interface_ip" l)
  connectionPort : MayBePort (Entries.find? "connection_port" l)

/-- Whether metadata are what is found under each key: every text or port is the value of its field,
and all other keys are attributes. -/
structure TakenFrom (m : NodeMetadata) (find? : String → Option Json) : Prop where
  label : ∀ text, m.label = some text ↔ find? "label" = some (.str text)
  state : ∀ text, m.state = some text ↔ find? "state" = some (.str text)
  interfaceIp : ∀ text, m.interfaceIp = some text ↔ find? "interface_ip" = some (.str text)
  connectionPort : ∀ port : UInt16,
    m.connectionPort = some port ↔ find? "connection_port" = some (.num (.integer port.toNat))
  attributes : ∀ key, m.attributes.get? key = if key ∈ fieldNames then none else find? key

theorem exists_optionalText_iff :
    (∃ text?, optionalText (value?.getD .null) = .ok text?) ↔ MayBeText value? := by
  unfold MayBeText
  cases value? with
  | none => exact iff_of_true ⟨none, rfl⟩ (.inl rfl)
  | some v =>
      cases v with
      | null => exact iff_of_true ⟨none, rfl⟩ (.inr (.inl rfl))
      | str text => exact iff_of_true ⟨some text, rfl⟩ (.inr (.inr ⟨text, rfl⟩))
      | _ => simp [optionalText]

theorem optionalText_says {text? : Option String}
    (h : optionalText (value?.getD .null) = .ok text?) (text : String) :
    text? = some text ↔ value? = some (.str text) := by
  cases value? with
  | none =>
      cases h
      simp
  | some v =>
      cases v with
      | null =>
          cases h
          simp
      | str s =>
          cases h
          simp
      | _ => cases h

/-- A number is read as a port exactly when it is an integer of 16 bits. -/
theorem optionalPort_num {n : Number} {port? : Option UInt16} :
    optionalPort (.num n) = .ok port? ↔
      ∃ i : Int, 0 ≤ i ∧ i ≤ 65535 ∧ n = .integer i ∧ port? = some i.toNat.toUInt16 := by
  have hbound : ((Power.two 16 : Nat) : Int) = 65536 := by decide
  cases n with
  | double x => exact iff_of_false nofun nofun
  | integer i =>
      unfold optionalPort Field.bounded
      dsimp only
      rw [hbound]
      split
      · next hi =>
          constructor
          · rintro ⟨⟩
            exact ⟨i, hi.1, by omega, rfl, rfl⟩
          · rintro ⟨_, -, -, ⟨⟩, rfl⟩
            rfl
      · next hi =>
          refine iff_of_false nofun ?_
          rintro ⟨_, hlow, hhigh, ⟨⟩, -⟩
          exact hi ⟨hlow, by omega⟩

theorem exists_optionalPort_iff :
    (∃ port?, optionalPort (value?.getD .null) = .ok port?) ↔ MayBePort value? := by
  unfold MayBePort
  cases value? with
  | none => exact iff_of_true ⟨none, rfl⟩ (.inl rfl)
  | some v =>
      cases v with
      | null => exact iff_of_true ⟨none, rfl⟩ (.inr (.inl rfl))
      | num n =>
          rw [Option.getD_some]
          simp only [optionalPort_num]
          constructor
          · rintro ⟨_, i, hlow, hhigh, rfl, -⟩
            exact .inr (.inr ⟨i, hlow, hhigh, rfl⟩)
          · rintro (habsent | hnull | ⟨i, hlow, hhigh, hvalue⟩)
            · cases habsent
            · cases hnull
            · cases hvalue
              exact ⟨_, i, hlow, hhigh, rfl, rfl⟩
      | _ => simp [optionalPort]

theorem optionalPort_says {port? : Option UInt16}
    (h : optionalPort (value?.getD .null) = .ok port?) (port : UInt16) :
    port? = some port ↔ value? = some (.num (.integer port.toNat)) := by
  cases value? with
  | none =>
      cases h
      simp
  | some v =>
      cases v with
      | null =>
          cases h
          simp
      | num n =>
          rcases optionalPort_num.1 h with ⟨i, hlow, hhigh, rfl, rfl⟩
          have hnat : i.toNat < 2 ^ 16 := by omega
          simp only [Option.some.injEq, Json.num.injEq, Number.integer.injEq]
          -- an integer of 16 bits is the same after the way to a port and back
          constructor
          · rintro rfl
            rw [Nat.toUInt16, UInt16.toNat_ofNat', Nat.mod_eq_of_lt hnat]
            omega
          · intro hi
            rw [hi, Int.toNat_natCast]
            exact UInt16.ofNat_toNat
      | _ => cases h

/-! ## Objects -/

/-- The members of an object that are no known fields. -/
def attributesOf (l : List (String × Json)) (hl : Entries.Ascending l) : Table String Json :=
  (Table.mk l hl).filter fun key _ => !fieldNames.contains key

theorem get?_attributesOf (hl : Entries.Ascending l) (key : String) :
    (attributesOf l hl).get? key = if key ∈ fieldNames then none else Entries.find? key l := by
  ext v
  unfold attributesOf
  rw [Table.get?_filter_eq_some_iff]
  change Entries.find? key l = some v ∧ _ ↔ _
  by_cases hkey : key ∈ fieldNames
  · simp [hkey]
  · simp [hkey]

/-- Some metadata can be taken from an object exactly when its fields have values of their types. -/
theorem exists_readFrom_iff (hl : Entries.Ascending l) :
    (∃ m : NodeMetadata, m.ReadFrom l) ↔ WellTyped l := by
  constructor
  · rintro ⟨m, hread⟩
    exact {
      label := exists_optionalText_iff.1 ⟨_, hread.label⟩
      state := exists_optionalText_iff.1 ⟨_, hread.state⟩
      interfaceIp := exists_optionalText_iff.1 ⟨_, hread.interfaceIp⟩
      connectionPort := exists_optionalPort_iff.1 ⟨_, hread.connectionPort⟩ }
  · intro htyped
    rcases exists_optionalText_iff.2 htyped.label with ⟨label, hlabel⟩
    rcases exists_optionalText_iff.2 htyped.state with ⟨state, hstate⟩
    rcases exists_optionalText_iff.2 htyped.interfaceIp with ⟨ip, hip⟩
    rcases exists_optionalPort_iff.2 htyped.connectionPort with ⟨port, hport⟩
    -- the attributes can be taken from every object, whatever their values are
    exact ⟨⟨label, state, ip, port, attributesOf l hl⟩, hlabel, hstate, hip, hport,
      get?_attributesOf hl⟩

theorem ReadFrom.takenFrom (h : m.ReadFrom l) : m.TakenFrom fun key => Entries.find? key l where
  label := optionalText_says h.label
  state := optionalText_says h.state
  interfaceIp := optionalText_says h.interfaceIp
  connectionPort := optionalPort_says h.connectionPort
  attributes := h.attributes

/-- The attributes are the object without the known fields. -/
theorem ReadFrom.attributes_eq (h : m.ReadFrom l) (hl : Entries.Ascending l) :
    m.attributes.toList = l.filter fun e => !fieldNames.contains e.1 := by
  have hsame : m.attributes = attributesOf l hl := Table.ext_get? fun key => by
    rw [h.attributes, get?_attributesOf]
  rw [hsame]
  rfl

end NodeMetadata

/-- Metadata are read from the payload at a path exactly when an object is, without a schema, whose
known fields have values of their types.  Then they are that object: its fields, and without them
its other members as attributes.  Both take the last member of every key. -/
theorem typed_agrees (path : String) (data : Bytes) :
    ((∃ m, NodeMetadata.decode path data = .ok m) ↔
        ∃ l, decodeObject path data = .ok l ∧ NodeMetadata.WellTyped l) ∧
      (∀ m, NodeMetadata.decode path data = .ok m → ∃ l, decodeObject path data = .ok l ∧
        (m.TakenFrom fun key => Entries.find? key l) ∧
        m.attributes.toList = l.filter fun e => !NodeMetadata.fieldNames.contains e.1) ∧
      ∀ l, decodeObject path data = .ok l →
        ∃ ms, ObjectText (Utf8.symbols data) ms ∧ (∀ m ∈ ms, Readable m.2) ∧
          (∀ key, Entries.find? key l = (lastMember? key ms).bind valueOf?) ∧
          ∀ m, NodeMetadata.decode path data = .ok m →
            m.TakenFrom fun key => (lastMember? key ms).bind valueOf? := by
  refine ⟨?_, fun m hm => ?_, fun l hl => ?_⟩
  · simp only [NodeMetadata.decode_eq_ok_iff, decodeObject_eq_ok_iff]
    rw [exists_comm]
    refine exists_congr fun l => ?_
    rw [exists_and_left]
    refine and_congr_right fun hparse => ?_
    exact NodeMetadata.exists_readFrom_iff (storable_of_parse hparse).1
  · rcases NodeMetadata.decode_eq_ok_iff.1 hm with ⟨l, hparse, hread⟩
    exact ⟨l, decodeObject_eq_ok_iff.2 hparse, hread.takenFrom,
      hread.attributes_eq (storable_of_parse hparse).1⟩
  · have hparse := decodeObject_eq_ok_iff.1 hl
    rcases find?_of_objectText hparse with ⟨ms, htext, hreadable, hfind⟩
    refine ⟨ms, htext, hreadable, hfind, fun m hm => ?_⟩
    rcases NodeMetadata.decode_eq_ok_iff.1 hm with ⟨l', hparse', hread⟩
    obtain rfl : l = l' := Json.obj.inj (Except.ok.inj (hparse.symm.trans hparse'))
    simp only [← hfind]
    exact hread.takenFrom

/-- A label that is repeated and becomes `null`, a port, and a repeated attribute. -/
def repeated : Bytes :=
  Utf8.bytes "\x7b\"label\":\"a\",\"zone\":1,\"label\":null,\"connection_port\":80,\"zone\":[]\x7d"

/-- The last of repeated members counts, also for its type. -/
theorem typed_agrees_repeated :
    ∃ m, NodeMetadata.decode "/nodes/1" repeated = .ok m ∧ m.label = none ∧
      m.connectionPort = some 80 ∧ m.attributes.toList = [("zone", .arr [])] := by
  have hobject : decodeObject "/nodes/1" repeated =
      .ok [("connection_port", .num (.integer 80)), ("label", .null), ("zone", .arr [])] := by
    decide +kernel
  have htyped : NodeMetadata.WellTyped
      [("connection_port", .num (.integer 80)), ("label", .null), ("zone", .arr [])] :=
    ⟨.inr (.inl rfl), .inl rfl, .inl rfl, .inr (.inr ⟨80, by decide, by decide, rfl⟩)⟩
  rcases (typed_agrees "/nodes/1" repeated).1.2 ⟨_, hobject, htyped⟩ with ⟨m, hm⟩
  rcases (typed_agrees "/nodes/1" repeated).2.1 m hm with ⟨l, hl, htaken, hattributes⟩
  obtain rfl := Except.ok.inj (hobject.symm.trans hl)
  refine ⟨m, hm, ?_, (htaken.connectionPort 80).2 rfl, hattributes⟩
  exact Option.eq_none_iff_forall_ne_some.2 fun text htext => nomatch (htaken.label text).1 htext

end FencedPool
