import FencedPool.Proofs.Client.AllOrNothing
import FencedPool.Proofs.Client.Identity
import FencedPool.Proofs.Request.RoundTrip

/-!
# ReadBack — which requests can be read again after they have been placed

A client places any request, whatever its labels are.  Reading refuses a record with an empty label.
So a request with an empty label stands in the store, belongs to its session, and cannot be read by
anybody, while every other request is read again just as it was placed.

This file defines:

* `Store.ReadsBack` — that a request can be read again as it is;
* `AllReadBack` — that all requests can that have been placed.

The main statements are `read_back_iff` and `not_allReadBack`.
-/

namespace FencedPool

/-- Whether a request can be read again as it is: its entry stands in the store, belongs to the
session and holds a record that is accepted, and reading the request gives an equal one. -/
structure Store.ReadsBack (s : Store) (id : SessionId) (r : NodeRequest) : Prop where
  entry : ∃ path data record, r.path = some path ∧
    s.entries.get? path = some ⟨data, some id⟩ ∧ NodeRequest.decode path data = .ok record
  refreshed : ((Client.refresh r).run (.plain id) s).answer = .ok r

namespace Client

open Procedure

variable {c : Client} {poolLabel consumerLabel : String} {r : NodeRequest} {s : Store}
  {id : SessionId}

/-- A request is placed only on an open session, and ends none. -/
theorem open_of_request
    (h : ((c.request poolLabel consumerLabel).run (.plain id) s).answer = .ok r) :
    ((c.request poolLabel consumerLabel).run (.plain id) s).state.isSessionOpen id = true := by
  have hsessions := (dialogue_plain id (c.request poolLabel consumerLabel) s).sessions
  unfold Store.isSessionOpen
  rw [hsessions]
  by_cases hopen : s.isSessionOpen id = true
  · exact hopen
  · unfold request at h
    rw [answer_note_bind, answer_ask_bind, Session.plain_perform_of_closed hopen] at h
    cases h

/-- At the place of a request stands its record, which belongs to the session, and reading the
request again is refused when the record has an empty part. -/
theorem refresh_of_request (hs : s.Rooted)
    (h : ((c.request poolLabel consumerLabel).run (.plain id) s).answer = .ok r) :
    let after := ((c.request poolLabel consumerLabel).run (.plain id) s).state
    ∃ path, r.path = some path ∧
      after.entries.get? path = some ⟨(NodeRequest.new poolLabel consumerLabel).encode, some id⟩ ∧
      ((refresh r).run (.plain id) after).answer =
        match (NodeRequest.new poolLabel consumerLabel).emptyPart? with
        | some reason => .error (.malformedRecord ⟨path, reason⟩)
        | none => .ok r := by
  have hopen := open_of_request h
  rcases request_created h with ⟨path, identity, hcreated, hidentity, rfl, hstate⟩
  rcases Store.create_ok hs hcreated with ⟨-, -, -, -, -, hentry, -, -⟩
  have hpath := (Store.createSequential_rooted hs _ _ _).paths path _ hentry
  rw [← hstate] at hentry
  generalize ((c.request poolLabel consumerLabel).run (.plain id) s).state = after at hopen hentry
  have hread : after.read path = .ok (NodeRequest.new poolLabel consumerLabel).encode := by
    unfold Store.read
    rw [if_pos hpath, hentry]
  refine ⟨path, rfl, hentry, ?_⟩
  rw [refresh_answer hopen rfl hidentity, hread]
  dsimp only
  cases hpart : (NodeRequest.new poolLabel consumerLabel).emptyPart? with
  | none =>
      rw [NodeRequest.decode_encode hpart]
      rfl
  | some reason => rw [NodeRequest.decode_encode_of_emptyPart? hpart]

end Client

theorem NodeRequest.new_emptyPart?_eq_none_iff {poolLabel consumerLabel : String} :
    (NodeRequest.new poolLabel consumerLabel).emptyPart? = none ↔
      poolLabel ≠ "" ∧ consumerLabel ≠ "" := by
  rw [NodeRequest.emptyPart?_eq_none_iff]
  constructor
  · rintro ⟨hpool, hconsumer, -⟩
    exact ⟨hpool, hconsumer⟩
  · rintro ⟨hpool, hconsumer⟩
    exact ⟨hpool, hconsumer, List.not_mem_nil⟩

/-- A request that has been placed can be read again as it is exactly when its labels are not empty.
Otherwise its entry stands in the store all the same, and reading it is refused. -/
theorem read_back_iff (s : Store) (hs : s.Reachable) (c : Client) (id : SessionId)
    (poolLabel consumerLabel : String) (r : NodeRequest)
    (hplaced : ((c.request poolLabel consumerLabel).run (.plain id) s).answer = .ok r) :
    let after := ((c.request poolLabel consumerLabel).run (.plain id) s).state
    (after.ReadsBack id r ↔ poolLabel ≠ "" ∧ consumerLabel ≠ "") ∧
      ∃ path, r.path = some path ∧
        after.entries.get? path = some ⟨(NodeRequest.new poolLabel consumerLabel).encode, some id⟩ ∧
        ∀ reason, (NodeRequest.new poolLabel consumerLabel).emptyPart? = some reason →
          ((Client.refresh r).run (.plain id) after).answer =
            .error (.malformedRecord ⟨path, reason⟩) := by
  intro after
  rcases Client.refresh_of_request hs.entriesSound.rooted hplaced with
    ⟨path, hpath, hentry, hanswer⟩
  change after.entries.get? path = _ at hentry
  change ((Client.refresh r).run (.plain id) after).answer = _ at hanswer
  clear_value after
  rw [← NodeRequest.new_emptyPart?_eq_none_iff]
  cases hpart : (NodeRequest.new poolLabel consumerLabel).emptyPart? with
  | none =>
      rw [hpart] at hanswer
      have hdecode := NodeRequest.decode_encode hpart path
      exact ⟨⟨fun _ => rfl, fun _ => ⟨⟨path, _, _, hpath, hentry, hdecode⟩, hanswer⟩⟩,
        path, hpath, hentry, nofun⟩
  | some reason =>
      rw [hpart] at hanswer
      refine ⟨⟨fun hback => ?_, nofun⟩, path, hpath, hentry, ?_⟩
      · have hrefreshed := hback.refreshed
        rw [hanswer] at hrefreshed
        cases hrefreshed
      · rintro _ ⟨⟩
        exact hanswer

/-- The labels may hold quotes and characters that are escaped. -/
theorem read_back_quoted :
    let s := ((Service.fresh {} .halfMinute).after [.openSession]).store
    let r := (NodeRequest.new "a\"b\n" "\x01é").placed
      "/nodepool/requests/100-0000000000" "0000000000"
    let after := ((Client.byDefault.request "a\"b\n" "\x01é").run (.plain ⟨1⟩) s).state
    after.ReadsBack ⟨1⟩ r := by
  intro s r after
  have hplaced :
      ((Client.byDefault.request "a\"b\n" "\x01é").run (.plain ⟨1⟩) s).answer = .ok r := by
    decide
  exact (read_back_iff s ⟨{}, .halfMinute, [.openSession], rfl⟩ .byDefault ⟨1⟩ _ _ r hplaced).1.2
    (by decide)

/-! ## Empty labels -/

/-- Whether every request that has been placed can be read again as it is. -/
def AllReadBack : Prop :=
  ∀ (s : Store) (c : Client) (id : SessionId) (poolLabel consumerLabel : String) (r : NodeRequest),
    s.Reachable → s.isSessionOpen id = true →
    ((c.request poolLabel consumerLabel).run (.plain id) s).answer = .ok r →
      ((c.request poolLabel consumerLabel).run (.plain id) s).state.ReadsBack id r

/-- A request without a pool label is placed, and reading it again is refused. -/
theorem not_allReadBack : ¬ AllReadBack := by
  intro h
  let s := ((Service.fresh {} .halfMinute).after [.openSession]).store
  have hread := h s .byDefault ⟨1⟩ "" "consumer"
    ((NodeRequest.new "" "consumer").placed "/nodepool/requests/100-0000000000" "0000000000")
    ⟨{}, .halfMinute, [.openSession], rfl⟩ (by decide) (by decide)
  have hrefreshed := hread.refreshed
  revert hrefreshed
  decide +kernel

end FencedPool
