import FencedPool.Proofs.Client.AllOrNothing
import FencedPool.Proofs.Path.Identity

/-!
# Sequenced — which paths a client takes for those of requests

A store completes the path of a request with a sequence number, so the last segment of the path ends
in a separator and the number.  A client looks for the last separator of the whole path.  So it
finds one above the last segment, where the namespace or the request root have theirs, and then the
identity that it gives to the request reaches over several segments.

What holds of the client holds for every session, whatever that answers.

This file defines:

* `Client.KeepsSequenced` — that a request is placed at a path that ends in a sequence number, and
  given up at any other;
* `OnlySequenced` — that this is so for every path.

The main statements are `keeps_sequenced_iff` and `not_onlySequenced`.
-/

namespace FencedPool

namespace Client

open FencedPool.Path Procedure

variable {σ : Type} {c : Client} {poolLabel consumerLabel q : String} {session : Session σ} {s : σ}

/-- The store has been asked for the entry of a request and has given a path. -/
def creationAt (c : Client) (poolLabel consumerLabel q : String) : Exchange :=
  ⟨.create c.config.requestStem (NodeRequest.new poolLabel consumerLabel).encode, .ok q⟩

/-- Whether a client that is given a path does what it has to, in its calls and its answer: a
request is placed at a path that ends in a number, with this number as its identity, which has no
slash, and any other path is deleted, in one attempt, and reported. -/
structure KeepsSequenced (c : Client) (poolLabel consumerLabel q : String)
    (dialogue : List Exchange) (answer : Except PoolError NodeRequest) : Prop where
  placed : ∀ number, Sequenced q number → '/' ∉ number.toList ∧
    answer = .ok ((NodeRequest.new poolLabel consumerLabel).placed q number) ∧
      dialogue = [c.creationAt poolLabel consumerLabel q]
  givenUp : (∀ number, ¬ Sequenced q number) →
    answer = .error (.invalidPath ⟨q⟩) ∧
      ∃ deletion, dialogue = [c.creationAt poolLabel consumerLabel q, ⟨.delete q, deletion⟩]

/-- A client looks at the whole path that it is given. -/
theorem request_gives {rest : List Exchange} {answer : Except PoolError NodeRequest}
    (h : (c.request poolLabel consumerLabel).Gives
      (c.creationAt poolLabel consumerLabel q :: rest) answer) :
    (∀ identity, identity? q = some identity →
        answer = .ok ((NodeRequest.new poolLabel consumerLabel).placed q identity) ∧ rest = []) ∧
      (identity? q = none → answer = .error (.invalidPath ⟨q⟩) ∧
        ∃ deletion, rest = [⟨.delete q, deletion⟩]) := by
  rw [request, gives_note_bind, gives_ask_bind] at h
  rcases h with ⟨given, rest', hdialogue, h⟩
  cases hdialogue
  dsimp only at h
  cases hidentity : identity? q with
  | some identity =>
      rw [hidentity] at h
      rcases gives_note_bind.1 h with ⟨rfl, rfl⟩
      refine ⟨?_, nofun⟩
      rintro _ ⟨⟩
      exact ⟨rfl, rfl⟩
  | none =>
      rw [hidentity] at h
      rcases gives_bind.1 (gives_note_bind.1 h) with
        ⟨first, last, report, hrest, hdelete, hend⟩
      rcases deleteNode_gives hdelete with ⟨deletion, rfl, -⟩
      have hdone : last = [] ∧ Except.error (.invalidPath ⟨q⟩) = answer := by
        -- what is told of a deletion that has failed changes nothing
        split at hend
        · exact gives_note_bind.1 hend
        · exact hend
      rcases hdone with ⟨rfl, rfl⟩
      exact ⟨nofun, fun _ => ⟨rfl, deletion, hrest⟩⟩

end Client

open FencedPool.Path

/-- Whatever a session answers, a client does what it has to with a path exactly when the last
segment has a separator or the path has none.  In any other case it places the request at the path,
with an identity that has a slash, and deletes nothing. -/
theorem keeps_sequenced_iff {σ : Type} (c : Client) (poolLabel consumerLabel : String)
    (session : Session σ) (s : σ) {q : String}
    (hgiven : (session.perform (.create c.config.requestStem
      (NodeRequest.new poolLabel consumerLabel).encode) s).answer = .ok q) :
    let request := c.request poolLabel consumerLabel
    let dialogue := request.exchanges session s
    let answer := (request.run session s).answer
    (c.KeepsSequenced poolLabel consumerLabel q dialogue answer ↔
        sequenceSeparator ∈ (lastSegment q).toList ∨ sequenceSeparator ∉ q.toList) ∧
      (sequenceSeparator ∉ (lastSegment q).toList → sequenceSeparator ∈ q.toList →
        ∃ identity, '/' ∈ identity.toList ∧
          answer = .ok ((NodeRequest.new poolLabel consumerLabel).placed q identity) ∧
          dialogue = [c.creationAt poolLabel consumerLabel q]) := by
  intro request dialogue answer
  have hgives : request.Gives dialogue answer := Procedure.gives_run session request s
  have hdialogue : ∃ rest, dialogue = c.creationAt poolLabel consumerLabel q :: rest :=
    ⟨_, congrArg (Exchange.mk _ · :: _) hgiven⟩
  rcases hdialogue with ⟨rest, hdialogue⟩
  rw [hdialogue] at hgives ⊢
  rcases Client.request_gives hgives with ⟨hplaced, hgone⟩
  by_cases hplace : sequenceSeparator ∈ (lastSegment q).toList ∨ sequenceSeparator ∉ q.toList
  · refine ⟨iff_of_true ⟨fun number hnumber => ?_, fun hnone => ?_⟩ hplace, ?_⟩
    · rcases hplaced number ((identity?_eq_some_iff_sequenced hplace).2 hnumber) with ⟨hanswer, rfl⟩
      exact ⟨slash_not_mem_of_sequenced hnumber, hanswer, rfl⟩
    · have hidentity : identity? q = none := by
        refine Option.eq_none_iff_forall_ne_some.2 fun number hnumber => ?_
        exact hnone number ((identity?_eq_some_iff_sequenced hplace).1 hnumber)
      rcases hgone hidentity with ⟨hanswer, deletion, rfl⟩
      exact ⟨hanswer, deletion, rfl⟩
    · intro hlast hpath
      rcases hplace with hmem | hnone
      · exact absurd hmem hlast
      · exact absurd hpath hnone
  · rcases not_or.1 hplace with ⟨hlast, hpath⟩
    rcases exists_identity?_of_above hlast (not_not.1 hpath) with ⟨identity, hidentity, hslash⟩
    rcases hplaced identity hidentity with ⟨hanswer, rfl⟩
    refine ⟨iff_of_false (fun hkeeps => ?_) hplace, fun _ _ => ⟨identity, hslash, hanswer, rfl⟩⟩
    have hrefused := (hkeeps.givenUp fun number hnumber =>
      hlast (mem_lastSegment_of_sequenced hnumber)).1
    rw [hanswer] at hrefused
    cases hrefused

/-! ## A namespace with a separator -/

/-- A session whose entries are all created at one path, and which answers all other calls like any
session. -/
def Session.fixedAt (path : String) (id : SessionId) : Session Store where
  id := id
  perform
    | .create _ data, s =>
        let outcome := s.put path data
        { answer := outcome.1.map fun _ => path, state := outcome.2 }
    | c, s => (Session.plain id).perform c s

/-- A path without a sequence number below the default namespace is given up. -/
theorem keeps_sequenced_by_default :
    let s := ((Service.fresh {} .halfMinute).after [.openSession]).store
    let session := Session.fixedAt "/nodepool/requests/100" ⟨1⟩
    let request := Client.byDefault.request "label" "consumer"
    Client.byDefault.KeepsSequenced "label" "consumer" "/nodepool/requests/100"
        (request.exchanges session s) (request.run session s).answer ∧
      (request.run session s).answer = .error (.invalidPath ⟨"/nodepool/requests/100"⟩) := by
  intro s session request
  exact ⟨(keeps_sequenced_iff .byDefault "label" "consumer" session s (by decide)).1.2 (by decide),
    by decide⟩

/-- Whether a client does what it has to with every path that a session gives to it. -/
def OnlySequenced : Prop :=
  ∀ (σ : Type) (c : Client) (poolLabel consumerLabel : String) (session : Session σ) (s : σ)
    (q : String),
    (session.perform (.create c.config.requestStem
      (NodeRequest.new poolLabel consumerLabel).encode) s).answer = .ok q →
        c.KeepsSequenced poolLabel consumerLabel q
          ((c.request poolLabel consumerLabel).exchanges session s)
          ((c.request poolLabel consumerLabel).run session s).answer

/-- Below a namespace with a separator a path without a sequence number is taken for that of a
request. -/
theorem not_onlySequenced : ¬ OnlySequenced := by
  intro h
  let c : Client := ⟨({} : Config).withBasePath "/my-pool", by decide⟩
  let s := ((Service.fresh {} .halfMinute).after [.openSession]).store
  have hkeeps := h Store c "label" "consumer" (.fixedAt "/my-pool/requests/100" ⟨1⟩) s
    "/my-pool/requests/100" (by decide)
  have hunsequenced : ∀ number, ¬ Sequenced "/my-pool/requests/100" number := fun number hnumber =>
    absurd (mem_lastSegment_of_sequenced hnumber) (by decide)
  have hrefused := (hkeeps.givenUp hunsequenced).1
  revert hrefused
  decide

end FencedPool
