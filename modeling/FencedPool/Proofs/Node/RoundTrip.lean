import FencedPool.Proofs.Node.Members

/-!
# RoundTrip — what is read from the record of a node

The record of a node is one object: the known fields that are present, and behind them the
attributes.  An attribute that is named like a known field is written as a second member of that
name, and as the last of them counts, it is read in place of the field.  So metadata are read back
from their record exactly when no attribute has the name of a field, and what was read once has no
such attribute.

This file defines:

* `NodeMetadata.Unclashing` and `NodeMetadata.AttributesStorable` — which metadata are read back;
* `NodeMetadata.reread` — what is left of metadata that are written and read many times.

The main statement is `metadata_round_trip`.
-/

namespace FencedPool

open Json

namespace NodeMetadata

variable {m : NodeMetadata} {l : List (String × Json)}

/-! ## Writing -/

variable (m) in
/-- The members of a record for the known fields that are present. -/
def fields : List (String × Json) :=
  member? "label" m.label .str ++ member? "state" m.state .str
    ++ member? "interface_ip" m.interfaceIp .str
    ++ member? "connection_port" m.connectionPort (fun p => .num (.integer p.toNat))

variable (m) in
/-- The members of a record: the fields, then the attributes. -/
def members : List (String × Json) := m.fields ++ m.attributes.toList

variable (m) in
/-- Whether no attribute is named like a known field. -/
def Unclashing : Prop := ∀ key ∈ fieldNames, m.attributes.get? key = none

variable (m) in
/-- Whether all attributes can be stored inside a record: their numbers are integers of 64 bits, and
together with the record they are not nested too deeply. -/
def AttributesStorable : Prop := ∀ e ∈ m.attributes.toList, Storable (maxDepth - 1) e.2

section Member

variable {α : Type} {name : String} {value : Option α} {toJson : α → Json}

theorem find?_member? (key : String) :
    Entries.find? key (member? name value toJson) =
      if key = name then value.map toJson else none := by
  cases value with
  | none => exact (ite_self _).symm
  | some a => simp [member?, Entries.find?]

theorem names_member?_sublist : ((member? name value toJson).map (·.1)).Sublist [name] := by
  cases value with
  | none => exact List.nil_sublist _
  | some a => exact List.Sublist.refl _

theorem forall_mem_member? {P : Json → Prop} (h : ∀ a, P (toJson a)) :
    ∀ e ∈ member? name value toJson, P e.2 := by
  cases value with
  | none => exact fun _ he => absurd he List.not_mem_nil
  | some a => exact fun e he => List.mem_singleton.1 he ▸ h a

end Member

theorem names_fields_sublist (m : NodeMetadata) : (m.fields.map (·.1)).Sublist fieldNames := by
  unfold fields
  rw [List.map_append, List.map_append, List.map_append]
  exact ((names_member?_sublist.append names_member?_sublist).append names_member?_sublist).append
    names_member?_sublist

/-- The known fields have different names, and the attributes have others. -/
theorem Unclashing.pairwise_members (h : m.Unclashing) :
    m.members.Pairwise fun a b => a.1 ≠ b.1 := by
  have hnames := names_fields_sublist m
  have hfields : m.fields.Pairwise fun a b => a.1 ≠ b.1 :=
    List.pairwise_map.1 (hnames.nodup (by decide))
  refine List.pairwise_append.2
    ⟨hfields, pairwise_ne_of_ascending m.attributes.ascending, fun f hf e he heq => ?_⟩
  have hfield : e.1 ∈ fieldNames := heq ▸ hnames.subset (List.mem_map_of_mem hf)
  have hpresent := Table.get?_eq_some_iff.2 he
  rw [h e.1 hfield] at hpresent
  cases hpresent

theorem optionalText_member (text? : Option String) :
    optionalText ((text?.map Json.str).getD .null) = .ok text? := by
  cases text? <;> rfl

theorem optionalPort_member (port? : Option UInt16) :
    optionalPort ((port?.map fun p => Json.num (.integer p.toNat)).getD .null) = .ok port? := by
  cases port? with
  | none => rfl
  | some p =>
      have hbound : p.toNat < Power.two 16 := Nat.lt_of_lt_of_eq p.toNat_lt (by decide)
      have hread : Field.bounded "u16" (Power.two 16) (.integer p.toNat) = .ok p.toNat := by
        unfold Field.bounded
        dsimp only
        rw [if_pos ⟨Int.natCast_nonneg _, Int.ofNat_lt.2 hbound⟩, Int.toNat_natCast]
      rw [Option.map_some, Option.getD_some, optionalPort, hread]
      simp [Except.map]

/-- Metadata without a clash are what the members of their record say. -/
theorem Unclashing.readFrom_members (h : m.Unclashing) : m.ReadFrom m.members := by
  have hattribute : ∀ name ∈ fieldNames, Entries.find? name m.attributes.toList = none := h
  have hlookup : ∀ key, Entries.find? key m.members =
      (Entries.find? key m.fields).or (Entries.find? key m.attributes.toList) := fun key =>
    Entries.find?_append key _ _
  have hfields : ∀ key, Entries.find? key m.fields =
      (((if key = "label" then m.label.map Json.str else none).or
        (if key = "state" then m.state.map Json.str else none)).or
        (if key = "interface_ip" then m.interfaceIp.map Json.str else none)).or
        (if key = "connection_port" then
          m.connectionPort.map fun p => Json.num (.integer p.toNat) else none) := by
    intro key
    unfold fields
    simp only [Entries.find?_append, find?_member?]
  refine ⟨?_, ?_, ?_, ?_, fun key => ?_⟩
  · rw [memberOf, hlookup, hfields, hattribute "label" (by decide)]
    simpa using optionalText_member m.label
  · rw [memberOf, hlookup, hfields, hattribute "state" (by decide)]
    simpa using optionalText_member m.state
  · rw [memberOf, hlookup, hfields, hattribute "interface_ip" (by decide)]
    simpa using optionalText_member m.interfaceIp
  · rw [memberOf, hlookup, hfields, hattribute "connection_port" (by decide)]
    simpa using optionalPort_member m.connectionPort
  · split
    · next hkey => exact h key hkey
    · next hkey =>
        simp only [fieldNames, List.mem_cons, List.not_mem_nil, or_false, not_or] at hkey
        rcases hkey with ⟨hlabel, hstate, hip, hport⟩
        rw [hlookup, hfields, if_neg hlabel, if_neg hstate, if_neg hip, if_neg hport]
        rfl

/-! ## Reading back -/

theorem ReadFrom.unclashing (h : m.ReadFrom l) : m.Unclashing := fun key hkey => by
  rw [h.attributes, if_pos hkey]

/-- A record is read as an object in which its members have been put in order. -/
theorem parse_encode (h : m.AttributesStorable) :
    parse m.encode = .ok (.obj (Entries.insertAll m.members [])) := by
  refine parse_obj fun e he => ?_
  rcases List.mem_append.1 he with hfield | hattribute
  · simp only [List.mem_append] at hfield
    rcases hfield with ((hlabel | hstate) | hip) | hport
    · exact forall_mem_member? (fun text => .str _ text) e hlabel
    · exact forall_mem_member? (fun text => .str _ text) e hstate
    · exact forall_mem_member? (fun text => .str _ text) e hip
    · refine forall_mem_member? (fun p => .integer _ ⟨?_, ?_⟩) e hport
      · have hlow : 0 < Power.two 63 := Nat.two_pow_pos 63
        have hnonneg : (0 : Int) ≤ p.toNat := Int.natCast_nonneg _
        omega
      · have hbound : p.toNat < Power.two 64 := Nat.lt_trans p.toNat_lt (by decide)
        exact Int.ofNat_lt.2 hbound
  · exact h e hattribute

/-- Metadata are read back from their record exactly when no attribute is named like a field. -/
theorem decode_encode_iff (h : m.AttributesStorable) (path : String) :
    decode path m.encode = .ok m ↔ m.Unclashing := by
  rw [decode_eq_ok_iff, parse_encode h]
  constructor
  · rintro ⟨l, -, hread⟩
    exact hread.unclashing
  · intro hclash
    refine ⟨_, rfl, hclash.readFrom_members.congr fun key => ?_⟩
    rw [Entries.find?_insertAll hclash.pairwise_members]
    exact Option.or_none

/-- What was read can be stored as it is, if its numbers are integers. -/
theorem attributesStorable_of_decode {path : String} {data : Bytes}
    (h : decode path data = .ok m) (hm : ∀ e ∈ m.attributes.toList, OnlyIntegers e.2) :
    m.AttributesStorable := by
  rcases decode_eq_ok_iff.1 h with ⟨l, hparse, hread⟩
  rintro ⟨key, v⟩ he
  have hlookup := hread.attributes key
  rw [Table.get?_eq_some_iff.2 he] at hlookup
  split at hlookup
  · cases hlookup
  · exact (storable_of_parse hparse).2 _ (Entries.mem_of_find? hlookup.symm) (hm _ he)

/-- What is left of metadata that are written and read again, once at each path of a list. -/
def reread (m : NodeMetadata) : List String → Except MalformedRecord NodeMetadata
  | [] => .ok m
  | path :: more =>
      match decode path m.encode with
      | .error e => .error e
      | .ok m' => m'.reread more

end NodeMetadata

/-- Metadata whose attributes can be stored are read back from their record exactly when no
attribute is named like a known field.  So what was read once, with no numbers but integers, is not
changed however often it is written and read again. -/
theorem metadata_round_trip :
    (∀ (m : NodeMetadata) (path : String), m.AttributesStorable →
      (NodeMetadata.decode path m.encode = .ok m ↔
        ∀ key ∈ ["label", "state", "interface_ip", "connection_port"],
          m.attributes.get? key = none)) ∧
    ∀ (path : String) (data : Bytes) (m : NodeMetadata), NodeMetadata.decode path data = .ok m →
      (∀ e ∈ m.attributes.toList, OnlyIntegers e.2) → ∀ paths, m.reread paths = .ok m := by
  refine ⟨fun m path hm => NodeMetadata.decode_encode_iff hm path,
    fun path data m h hm paths => ?_⟩
  have hstorable := NodeMetadata.attributesStorable_of_decode h hm
  rcases NodeMetadata.decode_eq_ok_iff.1 h with ⟨l, -, hread⟩
  -- each time the same metadata are read
  induction paths with
  | nil => rfl
  | cons path paths ih =>
      rw [NodeMetadata.reread, (NodeMetadata.decode_encode_iff hstorable path).2 hread.unclashing]
      exact ih

/-- A label, an attribute with nested values, and one of those an integer below zero. -/
def NodeMetadata.nested : NodeMetadata :=
  let m : NodeMetadata := {}
  m.withLabel "small" |>.withAttribute "zone"
    (.arr [.num (.integer (-3)), .obj [("a", .null), ("b", .str "\n")]])

/-- Nested attributes are read back, and read back again. -/
theorem metadata_round_trip_nested :
    let m := NodeMetadata.nested
    m.AttributesStorable ∧ NodeMetadata.decode "/nodes/1" m.encode = .ok m ∧
      m.reread ["/nodes/1", "/nodes/2", "/nodes/1"] = .ok m := by
  intro m
  have hzone : ∀ e ∈ m.attributes.toList,
      e.2 = .arr [.num (.integer (-3)), .obj [("a", .null), ("b", .str "\n")]] := fun e he =>
    congrArg Prod.snd (List.mem_singleton.1 he)
  have hstorable : m.AttributesStorable := fun e he => by
    rw [hzone e he]
    refine .arr (List.forall_mem_cons.2 ⟨.integer _ (by decide), List.forall_mem_singleton.2 ?_⟩)
    refine .obj (List.pairwise_pair.2 (by decide)) (List.forall_mem_cons.2 ⟨.null _, ?_⟩)
    exact List.forall_mem_singleton.2 (.str _ _)
  have hints : ∀ e ∈ m.attributes.toList, OnlyIntegers e.2 := fun e he => by
    rw [hzone e he]
    refine .arr (List.forall_mem_cons.2 ⟨.integer (by decide), List.forall_mem_singleton.2 ?_⟩)
    exact .obj (List.forall_mem_cons.2 ⟨.null, List.forall_mem_singleton.2 (.str _)⟩)
  have hdecode := (metadata_round_trip.1 m "/nodes/1" hstorable).2 (by decide)
  exact ⟨hstorable, hdecode, metadata_round_trip.2 "/nodes/1" m.encode m hdecode hints _⟩

end FencedPool
