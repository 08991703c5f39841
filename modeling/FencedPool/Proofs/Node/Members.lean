import FencedPool.Node.Codec
import FencedPool.Proofs.Json.Values
import Mathlib.Data.List.Induction

/-!
# Members — metadata are what the members of an object say

Metadata are read from an object member by member.  As the members have different names, none of
them takes away what another has given, and so the order of reading does not matter: each known
field is what the member of its name says, and all other members are the attributes.

This file defines:

* `NodeMetadata.ReadFrom` — that metadata are what the members of an object say;
* `NodeMetadata.Fits` — that a member has a value of the type of its field.

The main statements are `NodeMetadata.ofMembers_eq_ok_iff` and `NodeMetadata.decode_eq_ok_iff`.
-/

namespace FencedPool

open Std

open Json

theorem decodeObject_eq_ok_iff {path : String} {data : Bytes} {l : List (String × Json)} :
    decodeObject path data = .ok l ↔ parse data = .ok (.obj l) := by
  unfold decodeObject
  split
  · next h => rw [h]; exact ⟨nofun, nofun⟩
  · next members h =>
      rw [h]
      exact ⟨fun heq => by cases heq; rfl, fun heq => by cases heq; rfl⟩
  · next v hobj h =>
      rw [h]
      exact ⟨nofun, fun heq => absurd (Except.ok.inj heq) (hobj l)⟩

namespace NodeMetadata

variable {m m' : NodeMetadata} {l : List (String × Json)} {key : String} {v : Json}

/-- The names of the known fields. -/
def fieldNames : List String := ["label", "state", "interface_ip", "connection_port"]

/-- The member of a name; an absent one counts as `null`. -/
def memberOf (l : List (String × Json)) (name : String) : Json := (Entries.find? name l).getD .null

/-- Whether metadata are what the members of an object say. -/
structure ReadFrom (m : NodeMetadata) (l : List (String × Json)) : Prop where
  label : optionalText (memberOf l "label") = .ok m.label
  state : optionalText (memberOf l "state") = .ok m.state
  interfaceIp : optionalText (memberOf l "interface_ip") = .ok m.interfaceIp
  connectionPort : optionalPort (memberOf l "connection_port") = .ok m.connectionPort
  attributes : ∀ key,
    m.attributes.get? key = if key ∈ fieldNames then none else Entries.find? key l

theorem ReadFrom.unique (h : m.ReadFrom l) (h' : m'.ReadFrom l) : m = m' := by
  have hattributes : m.attributes = m'.attributes := Table.ext_get? fun key => by
    rw [h.attributes, h'.attributes]
  cases m
  cases m'
  cases Except.ok.inj (h.label.symm.trans h'.label)
  cases Except.ok.inj (h.state.symm.trans h'.state)
  cases Except.ok.inj (h.interfaceIp.symm.trans h'.interfaceIp)
  cases Except.ok.inj (h.connectionPort.symm.trans h'.connectionPort)
  cases hattributes
  rfl

/-! ## Reading member by member -/

theorem memberOf_append_self (hkey : ∀ e ∈ l, e.1 ≠ key) : memberOf (l ++ [(key, v)]) key = v := by
  unfold memberOf
  rw [Entries.find?_append, Entries.find?_eq_none_of_ne hkey]
  simp [Entries.find?]

theorem find?_append_of_ne {name : String} (h : name ≠ key) :
    Entries.find? name (l ++ [(key, v)]) = Entries.find? name l := by
  have hne : compare name key ≠ .eq := fun heq => h (LawfulEqOrd.eq_of_compare heq)
  rw [Entries.find?_append, Entries.find?, if_neg hne]
  exact Option.or_none

theorem memberOf_append_of_ne {name : String} (h : name ≠ key) :
    memberOf (l ++ [(key, v)]) name = memberOf l name := by
  unfold memberOf
  rw [find?_append_of_ne h]

/-- A known field is no attribute. -/
theorem ReadFrom.attributes_of_field (h : m.ReadFrom l) (hkey : key ∈ fieldNames) (name : String) :
    m.attributes.get? name =
      if name ∈ fieldNames then none else Entries.find? name (l ++ [(key, v)]) := by
  rw [h.attributes]
  split
  · rfl
  · next hname =>
      have hne : name ≠ key := fun heq => hname (heq ▸ hkey)
      rw [find?_append_of_ne hne]

/-- A further member says what it says, and leaves the others as they are. -/
theorem ReadFrom.take (h : m.ReadFrom l) (hkey : ∀ e ∈ l, e.1 ≠ key)
    (htake : m.take key v = .ok m') : m'.ReadFrom (l ++ [(key, v)]) := by
  unfold NodeMetadata.take at htake
  split at htake
  · rcases map_eq_ok_iff.1 htake with ⟨t, ht, rfl⟩
    exact {
      label := by rw [memberOf_append_self hkey, ht]
      state := by rw [memberOf_append_of_ne (by decide), h.state]
      interfaceIp := by rw [memberOf_append_of_ne (by decide), h.interfaceIp]
      connectionPort := by rw [memberOf_append_of_ne (by decide), h.connectionPort]
      attributes := h.attributes_of_field (by decide) }
  · rcases map_eq_ok_iff.1 htake with ⟨t, ht, rfl⟩
    exact {
      label := by rw [memberOf_append_of_ne (by decide), h.label]
      state := by rw [memberOf_append_self hkey, ht]
      interfaceIp := by rw [memberOf_append_of_ne (by decide), h.interfaceIp]
      connectionPort := by rw [memberOf_append_of_ne (by decide), h.connectionPort]
      attributes := h.attributes_of_field (by decide) }
  · rcases map_eq_ok_iff.1 htake with ⟨t, ht, rfl⟩
    exact {
      label := by rw [memberOf_append_of_ne (by decide), h.label]
      state := by rw [memberOf_append_of_ne (by decide), h.state]
      interfaceIp := by rw [memberOf_append_self hkey, ht]
      connectionPort := by rw [memberOf_append_of_ne (by decide), h.connectionPort]
      attributes := h.attributes_of_field (by decide) }
  · rcases map_eq_ok_iff.1 htake with ⟨p, hp, rfl⟩
    exact {
      label := by rw [memberOf_append_of_ne (by decide), h.label]
      state := by rw [memberOf_append_of_ne (by decide), h.state]
      interfaceIp := by rw [memberOf_append_of_ne (by decide), h.interfaceIp]
      connectionPort := by rw [memberOf_append_self hkey, hp]
      attributes := h.attributes_of_field (by decide) }
  · next hlabel hstate hip hport =>
      cases htake
      have hfield : key ∉ fieldNames := by
        simp only [fieldNames, List.mem_cons, List.not_mem_nil, or_false, not_or]
        exact ⟨hlabel, hstate, hip, hport⟩
      have hother : ∀ name ∈ fieldNames, name ≠ key := fun name hname heq => hfield (heq ▸ hname)
      refine {
        label := by rw [memberOf_append_of_ne (hother _ (by decide))]; exact h.label
        state := by rw [memberOf_append_of_ne (hother _ (by decide))]; exact h.state
        interfaceIp := by rw [memberOf_append_of_ne (hother _ (by decide))]; exact h.interfaceIp
        connectionPort := by
          rw [memberOf_append_of_ne (hother _ (by decide))]; exact h.connectionPort
        attributes := fun name => ?_ }
      change (m.attributes.insert key v).get? name = _
      rw [Table.get?_insert, h.attributes]
      by_cases hname : name = key
      · have hfind : Entries.find? key (l ++ [(key, v)]) = some v := by
          rw [Entries.find?_append, Entries.find?_eq_none_of_ne hkey]
          simp [Entries.find?]
        rw [if_pos hname, hname, if_neg hfield, hfind]
      · rw [if_neg hname, find?_append_of_ne hname]

theorem ofMembers_append (m : NodeMetadata) (l : List (String × Json)) (e : String × Json) :
    ofMembers m (l ++ [e]) = (ofMembers m l).bind fun m' => m'.take e.1 e.2 := by
  induction l generalizing m with
  | nil =>
      simp only [List.nil_append, ofMembers]
      cases htake : m.take e.1 e.2 with
      | error _ => exact htake.symm
      | ok m' => exact htake.symm
  | cons f l ih =>
      simp only [List.cons_append, ofMembers]
      cases m.take f.1 f.2 with
      | error e => rfl
      | ok m' => exact ih m'

/-- What was read from an object is what its members say. -/
theorem readFrom_of_ofMembers (hl : l.Pairwise fun a b => a.1 ≠ b.1)
    (h : ofMembers {} l = .ok m) : m.ReadFrom l := by
  -- from the last member to the first, as each is read into what those before it have given
  induction l using List.reverseRecOn generalizing m with
  | nil =>
      cases h
      exact ⟨rfl, rfl, rfl, rfl, fun key => (ite_self _).symm⟩
  | append_singleton l e ih =>
      rw [ofMembers_append] at h
      rcases List.pairwise_append.1 hl with ⟨hpairwise, -, hlast⟩
      cases hbefore : ofMembers {} l with
      | error e =>
          rw [hbefore] at h
          cases h
      | ok before =>
          rw [hbefore] at h
          exact (ih hpairwise hbefore).take
            (fun f hf => hlast f hf e (List.mem_singleton_self e)) h

/-- Whether a member can be read: a known field has a value of its type. -/
def Fits (key : String) (v : Json) : Prop := ∀ m : NodeMetadata, ∃ m', m.take key v = .ok m'

theorem exists_ofMembers (h : ∀ e ∈ l, Fits e.1 e.2) (m : NodeMetadata) :
    ∃ m', ofMembers m l = .ok m' := by
  induction l generalizing m with
  | nil => exact ⟨m, rfl⟩
  | cons e l ih =>
      rcases List.forall_mem_cons.1 h with ⟨he, hl⟩
      rcases he m with ⟨next, hnext⟩
      rw [ofMembers, hnext]
      exact ih hl next

theorem ReadFrom.fits (h : m.ReadFrom l) (hl : Entries.Ascending l) :
    ∀ e ∈ l, Fits e.1 e.2 := by
  rintro ⟨key, v⟩ he m₀
  have hmember : memberOf l key = v := by
    unfold memberOf
    rw [(Entries.find?_eq_some_iff hl).2 he]
    rfl
  dsimp only
  rw [← hmember]
  unfold NodeMetadata.take
  split
  · exact ⟨_, by rw [h.label]; rfl⟩
  · exact ⟨_, by rw [h.state]; rfl⟩
  · exact ⟨_, by rw [h.interfaceIp]; rfl⟩
  · exact ⟨_, by rw [h.connectionPort]; rfl⟩
  · exact ⟨_, rfl⟩

theorem pairwise_ne_of_ascending (hl : Entries.Ascending l) : l.Pairwise fun a b => a.1 ≠ b.1 := by
  refine List.Pairwise.imp (fun {a b} hlt heq => ?_) hl
  have hself : compare b.1 b.1 = .eq := ReflCmp.compare_self
  rw [heq, hself] at hlt
  cases hlt

/-- Exactly those metadata are read from an object that its members say. -/
theorem ofMembers_eq_ok_iff (hl : Entries.Ascending l) : ofMembers {} l = .ok m ↔ m.ReadFrom l := by
  refine ⟨readFrom_of_ofMembers (pairwise_ne_of_ascending hl), fun h => ?_⟩
  rcases exists_ofMembers (h.fits hl) {} with ⟨m', hm'⟩
  rw [hm', h.unique (readFrom_of_ofMembers (pairwise_ne_of_ascending hl) hm')]

/-! ## Whole records -/

/-- Metadata are read from a text exactly when it is an object whose members say them. -/
theorem decode_eq_ok_iff {path : String} {data : Bytes} :
    decode path data = .ok m ↔ ∃ l, parse data = .ok (.obj l) ∧ m.ReadFrom l := by
  constructor
  · intro h
    unfold decode at h
    split at h
    · cases h
    · next l hl =>
        have hparse := decodeObject_eq_ok_iff.1 hl
        split at h
        · next m' hm' =>
            cases h
            exact ⟨l, hparse, (ofMembers_eq_ok_iff (storable_of_parse hparse).1).1 hm'⟩
        · cases h
  · rintro ⟨l, hparse, hread⟩
    have hmembers := (ofMembers_eq_ok_iff (storable_of_parse hparse).1).2 hread
    unfold decode
    rw [decodeObject_eq_ok_iff.2 hparse]
    dsimp only
    rw [hmembers]

theorem ReadFrom.congr {l' : List (String × Json)} (h : m.ReadFrom l)
    (hl : ∀ key, Entries.find? key l' = Entries.find? key l) : m.ReadFrom l' := by
  have hmember : ∀ name, memberOf l' name = memberOf l name := fun name => by
    unfold memberOf
    rw [hl]
  refine ⟨?_, ?_, ?_, ?_, fun key => ?_⟩
  · rw [hmember, h.label]
  · rw [hmember, h.state]
  · rw [hmember, h.interfaceIp]
  · rw [hmember, h.connectionPort]
  · rw [hl, h.attributes]

end NodeMetadata

end FencedPool
