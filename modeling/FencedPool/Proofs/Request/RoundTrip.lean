import FencedPool.Proofs.Json.Layout
import FencedPool.Request.Codec

/-!
# RoundTrip — what is read from the record of a request

A request is written as an object of five members, each of which is read back as it was written.  So
the record of a request gives the request, except for its path, which is that of the place where it
is read.  Only a record whose labels or allocated nodes are empty texts is refused.  As a record
gives the request, different requests have different records.

The main statements are `NodeRequest.decode_encode`, `NodeRequest.decode_encode_of_emptyPart?` and
`request_round_trip`.
-/

namespace FencedPool

namespace Json

namespace Field

/-- A field that has no value yet is read from behind its key. -/
theorem once_written {α : Type} {read : Reader α} {v : Json} {a : α} {more : List Symbol}
    (hread : read (v.compact.map some ++ more) = .ok (a, more)) (name : String) :
    once name none read (some ':' :: v.compact.map some ++ more) = .ok (some a, more) := by
  change (read (v.compact.map some ++ more)).bind (fun r => .ok (some r.1, r.2)) = _
  rw [hread]
  rfl

theorem optional_text_written (text? : Option String) (more : List Symbol) :
    optional text
        ((compact (match text? with | some s => .str s | none => .null)).map some ++ more) =
      .ok (text?, more) := by
  cases text? with
  | none => rfl
  | some s =>
      change (text ((Text.render s).map some ++ more)).map _ = _
      rw [text_render]
      rfl

/-- The texts of a list are gathered in reverse. -/
theorem readsItems_text (texts acc : List String) :
    ReadsItems (fun (acc : List String) s => (text s).map fun r => (r.1 :: acc, r.2)) acc
      (texts.map .str) (texts.reverse ++ acc) := by
  induction texts generalizing acc with
  | nil => exact .nil acc
  | cons s texts ih =>
      rw [List.map_cons, List.reverse_cons, List.append_assoc]
      refine .cons (opens_str s) (fun rest _ => ?_) (ih (s :: acc))
      change (text ((Text.render s).map some ++ rest)).map _ = _
      rw [text_render]
      rfl

theorem texts_written (list : List String) (more : List Symbol) :
    texts ((compact (.arr (list.map .str))).map some ++ more) = .ok (list, more) := by
  have hitems := items_written (readsItems_text list []) more
  have htext : compact (.arr (list.map .str)) = '[' :: (compact (.arr (list.map .str))).tail := by
    cases list with
    | nil => rfl
    | cons s list => rfl
  rw [htext]
  change (items (fun (acc : List String) s => (text s).map fun r => (r.1 :: acc, r.2)) []
    ((compact (.arr (list.map .str))).tail.map some ++ more)).map (fun r => (r.1.reverse, r.2)) = _
  rw [hitems, Except.map, List.append_nil, List.reverse_reverse]

theorem choice_written {α : Type} {known : List String} {named? : String → Option α}
    {name : String} {a : α} (hname : named? name = some a) (more : List Symbol) :
    choice known named? ((Text.render name).map some ++ more) = .ok (a, more) := by
  have hread := read_key name more
  change (Text.read ((Text.render name).tail.map some ++ more) >>= fun r => _) = _
  rw [hread]
  simp only [bind, Except.bind, hname]

end Field

end Json

open Json

theorem RequestState.read_written (s : RequestState) (more : List Symbol) :
    RequestState.read ((Text.render s.display).map some ++ more) = .ok (s, more) :=
  Field.choice_written (named?_eq_some_iff.2 rfl) more

namespace NodeRequest

variable {r : NodeRequest}

def members (r : NodeRequest) : List (String × Json) :=
  [("consumerLabel", .str r.consumerLabel), ("poolLabel", .str r.poolLabel),
    ("nodePoolID", match r.id with | some id => .str id | none => .null),
    ("allocatedNodes", .arr (r.allocatedNodes.map .str)), ("state", .str r.state.display)]

/-- The draft that has all fields of a request. -/
def draft (r : NodeRequest) : Draft :=
  { consumerLabel := some r.consumerLabel, poolLabel := some r.poolLabel, id := some r.id
    allocatedNodes := some r.allocatedNodes, state := some r.state }

/-- The members of a record fill a draft one after the other. -/
theorem readsMembers (r : NodeRequest) : ReadsMembers member {} r.members r.draft := by
  let first : Draft := { consumerLabel := some r.consumerLabel }
  let second : Draft := { first with poolLabel := some r.poolLabel }
  let third : Draft := { second with id := some r.id }
  let fourth : Draft := { third with allocatedNodes := some r.allocatedNodes }
  have hstate : ReadsMembers member fourth [("state", .str r.state.display)] r.draft := by
    refine .cons (fun more _ => ?_) (.nil _)
    change (Field.once "state" none RequestState.read _).map _ = _
    rw [Field.once_written (RequestState.read_written r.state more)]
    rfl
  have hnodes : ReadsMembers member third (r.members.drop 3) r.draft := by
    refine .cons (fun more _ => ?_) hstate
    change (Field.once "allocatedNodes" none Field.texts _).map _ = _
    rw [Field.once_written (Field.texts_written r.allocatedNodes more)]
    rfl
  have hid : ReadsMembers member second (r.members.drop 2) r.draft := by
    refine .cons (fun more _ => ?_) hnodes
    change (Field.once "nodePoolID" none (Field.optional Field.text) _).map _ = _
    rw [Field.once_written (Field.optional_text_written r.id more)]
    rfl
  have hpool : ReadsMembers member first (r.members.drop 1) r.draft := by
    refine .cons (fun more _ => ?_) hid
    change (Field.once "poolLabel" none Field.text _).map _ = _
    rw [Field.once_written (Field.text_render r.poolLabel more)]
    rfl
  refine .cons (fun more _ => ?_) hpool
  change (Field.once "consumerLabel" none Field.text _).map _ = _
  rw [Field.once_written (Field.text_render r.consumerLabel more)]
  rfl

/-- A record is read as the request that was written, without its path. -/
theorem read_encode (r : NodeRequest) : read r.encode = .ok { r with path := none } := by
  have hsymbols : Utf8.symbols r.encode = (compact (.obj r.members)).map some := by
    unfold encode Utf8.bytes Json.text
    rw [Utf8.symbols_encode, String.toList_ofList]
    rfl
  have hmembers := members_written r.readsMembers []
  rw [List.append_nil] at hmembers
  unfold read
  rw [hsymbols]
  change (fromObject ((compact (.obj r.members)).tail.map some)).bind finish = _
  unfold fromObject
  rw [hmembers]
  rfl

theorem emptyPart?_eq_none_iff :
    r.emptyPart? = none ↔ r.poolLabel ≠ "" ∧ r.consumerLabel ≠ "" ∧ "" ∉ r.allocatedNodes := by
  unfold emptyPart?
  split
  · next h => simp [h]
  · next hpool =>
      split
      · next h => simp [h]
      · next hconsumer =>
          split
          · next h => simp [h]
          · next hnodes => simp [hpool, hconsumer, hnodes]

/-- A record without empty parts gives the request that was written, at the path where it is
read. -/
theorem decode_encode (h : r.emptyPart? = none) (path : String) :
    decode path r.encode = .ok { r with path := some path } := by
  unfold decode
  rw [read_encode]
  have hpart : emptyPart? { r with path := none } = none := h
  dsimp only
  rw [hpart]

/-- A record with an empty part is refused. -/
theorem decode_encode_of_emptyPart? {reason : String} (h : r.emptyPart? = some reason)
    (path : String) : decode path r.encode = .error ⟨path, reason⟩ := by
  unfold decode
  rw [read_encode]
  have hpart : emptyPart? { r with path := none } = some reason := h
  dsimp only
  rw [hpart]

/-- A record is accepted or refused by its parts alone. -/
theorem decode_encode_eq (r : NodeRequest) (path : String) :
    decode path r.encode =
      match r.emptyPart? with
      | none => .ok { r with path := some path }
      | some reason => .error ⟨path, reason⟩ := by
  cases hpart : r.emptyPart? with
  | none => exact decode_encode hpart path
  | some reason => exact decode_encode_of_emptyPart? hpart path

/-- The record says everything about a request but where it is stored. -/
theorem encode_eq_iff {other : NodeRequest} :
    r.encode = other.encode ↔ { r with path := other.path } = other := by
  constructor
  · intro h
    have hread : read r.encode = read other.encode := congrArg read h
    rw [read_encode, read_encode] at hread
    have hunplaced : { r with path := none } = { other with path := none } :=
      Except.ok.inj hread
    exact congrArg (fun q : NodeRequest => { q with path := other.path }) hunplaced
  · intro h
    rw [← h]
    rfl

/-- What was read has no empty part. -/
theorem emptyPart?_of_decode {path : String} {data : Bytes} (h : decode path data = .ok r) :
    r.emptyPart? = none := by
  unfold decode at h
  split at h
  · cases h
  · next q hread =>
      split at h
      · cases h
      · next hpart =>
          cases h
          exact hpart

end NodeRequest

/-- Whether no label and no allocated node of a request is the empty text. -/
def NodeRequest.Filled (r : NodeRequest) : Prop :=
  r.poolLabel ≠ "" ∧ r.consumerLabel ≠ "" ∧ "" ∉ r.allocatedNodes

/-- What is read from the record of a request is the request at the place of the record, exactly
when neither a label nor an allocated node is empty; otherwise it is refused at that place.  The
records of two requests are equal exactly when the requests differ in their paths at most. -/
theorem request_round_trip (r : NodeRequest) :
    (∀ path,
      (NodeRequest.decode path r.encode = .ok { r with path := some path } ↔ r.Filled) ∧
      ((∃ reason, NodeRequest.decode path r.encode = .error ⟨path, reason⟩) ↔ ¬ r.Filled)) ∧
    ∀ other : NodeRequest, r.encode = other.encode ↔ { r with path := other.path } = other := by
  refine ⟨fun path => ?_, fun other => NodeRequest.encode_eq_iff⟩
  have hempty : r.Filled ↔ r.emptyPart? = none := NodeRequest.emptyPart?_eq_none_iff.symm
  rw [hempty, NodeRequest.decode_encode_eq]
  cases r.emptyPart? with
  | none => exact ⟨⟨fun _ => rfl, fun _ => rfl⟩, nofun, fun h => absurd rfl h⟩
  | some reason => exact ⟨⟨nofun, nofun⟩, fun _ => nofun, fun _ => ⟨reason, rfl⟩⟩

end FencedPool
