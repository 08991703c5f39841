import FencedPool.Client
import FencedPool.Proofs.Procedure.Dialogue

/-!
# Request — where requests are placed

A client asks the store for an entry below the request root, and the store completes the path with a
sequence number.  The request that comes back has the path that the store has given.

This file defines `Config.requestAt`, the path of a request with a sequence number.  The main
statement is `Client.request_created`.
-/

namespace FencedPool

/-- The path of a request that has been given a sequence number. -/
def Config.requestAt (c : Config) (number : Nat) : String :=
  c.requestStem ++ Text.padded 10 Store.sequenceDigits number

namespace Client

open Procedure

variable {c : Client} {poolLabel consumerLabel : String} {r : NodeRequest} {s : Store}
  {id : SessionId}

/-- A request on an open session ends as the creation does, unless the path that is given has no
identity.  That one is given up. -/
theorem request_run (c : Client) (poolLabel consumerLabel : String)
    (hopen : s.isSessionOpen id = true) :
    let creation := s.createSequential c.config.requestStem
      (NodeRequest.new poolLabel consumerLabel).encode (some id)
    let reply := (c.request poolLabel consumerLabel).run (.plain id) s
    (∀ e, creation.1 = .error e → reply.answer = .error (.ofStore e) ∧ reply.state = creation.2) ∧
      ∀ path, creation.1 = .ok path →
        (Path.identity? path = none → ∀ r, reply.answer ≠ .ok r) ∧
          ∀ identity, Path.identity? path = some identity →
            reply.answer = .ok ((NodeRequest.new poolLabel consumerLabel).placed path identity) ∧
              reply.state = creation.2 := by
  intro creation reply
  have hperform : (Session.plain id).perform (.create c.config.requestStem
      (NodeRequest.new poolLabel consumerLabel).encode) s =
        { answer := creation.1, state := creation.2 } := Session.plain_perform_of_open hopen _
  have hreply : reply = (c.request poolLabel consumerLabel).run (.plain id) s := rfl
  clear_value reply creation
  unfold request at hreply
  refine ⟨fun e he => ?_, fun path hpath =>
    ⟨fun hidentity r hr => ?_, fun identity hidentity => ?_⟩⟩
  · rw [hreply]
    constructor
    · rw [answer_note_bind, run_ask_bind, hperform, he]
      rfl
    · change ((ask _ >>= _).run (.plain id) s).state = _
      rw [run_ask_bind, hperform, he]
      rfl
  · rw [hreply, answer_note_bind, run_ask_bind, hperform, hpath] at hr
    dsimp only at hr
    rw [hidentity] at hr
    dsimp only at hr
    rw [answer_note_bind, answer_bind] at hr
    split at hr
    · cases hr
    · cases hr
  · rw [hreply]
    constructor
    · rw [answer_note_bind, run_ask_bind, hperform, hpath]
      dsimp only
      rw [hidentity]
      rfl
    · change ((ask _ >>= _).run (.plain id) s).state = _
      rw [run_ask_bind, hperform, hpath]
      dsimp only
      rw [hidentity]
      rfl

/-- A request comes back with the path that the store has given, and has done nothing else. -/
theorem request_created
    (h : ((c.request poolLabel consumerLabel).run (.plain id) s).answer = .ok r) :
    let creation := s.createSequential c.config.requestStem
      (NodeRequest.new poolLabel consumerLabel).encode (some id)
    ∃ path identity, creation.1 = .ok path ∧ Path.identity? path = some identity ∧
      r = (NodeRequest.new poolLabel consumerLabel).placed path identity ∧
      ((c.request poolLabel consumerLabel).run (.plain id) s).state = creation.2 := by
  intro creation
  by_cases hopen : s.isSessionOpen id = true
  · rcases c.request_run poolLabel consumerLabel hopen with ⟨hrefused, hgiven⟩
    cases hcreated : creation.1 with
    | error e =>
        rw [(hrefused e hcreated).1] at h
        cases h
    | ok path =>
        cases hidentity : Path.identity? path with
        | none => exact absurd h ((hgiven path hcreated).1 hidentity r)
        | some identity =>
            rcases (hgiven path hcreated).2 identity hidentity with ⟨hanswer, hstate⟩
            rw [hanswer] at h
            cases h
            exact ⟨path, identity, rfl, hidentity, rfl, hstate⟩
  · unfold request at h
    rw [answer_note_bind, run_ask_bind, Session.plain_perform_of_closed hopen] at h
    cases h

end Client

end FencedPool
