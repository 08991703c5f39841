import FencedPool.Proofs.Config.Namespaces

/-!
# Placement — what a request comes to below usable settings

Settings are checked once, when a client is made.  From then on all paths that are put together from
them are well formed, so on an open session a request can fail for two reasons only: an entry at or
above the request root belongs to a session, or the path with the next number is taken.  Otherwise
the request is placed there, and the number is its identity, however many digits it has.

This file defines `Client.Placement`, how a request can end.  The main statement is
`request_placement`.
-/

namespace FencedPool

open FencedPool.Path

namespace Client

/-- How a request ends, from the store before and after: an entry of a session stands at or above
the request root, or the path with the next number is taken, or the request is placed there. -/
inductive Placement (c : Client) (poolLabel consumerLabel : String) (id : SessionId)
    (before after : Store) : Except PoolError NodeRequest → Prop
  | blocked (above : String) (within : IsWithin above c.config.requestPath)
      (ephemeral : before.isEphemeral above = true) (unchanged : after = before) :
      Placement c poolLabel consumerLabel id before after
        (.error (.store (.badPath (above ++ " is ephemeral and cannot have children"))))
  | taken (free : ∀ above, IsWithin above c.config.requestPath → before.isEphemeral above = false)
      (present : before.entries.contains
        (c.config.requestAt (before.counter c.config.requestPath)) = true) :
      Placement c poolLabel consumerLabel id before after
        (.error (.store (.nodeExists
          (c.config.requestAt (before.counter c.config.requestPath)))))
  | placed (free : ∀ above, IsWithin above c.config.requestPath → before.isEphemeral above = false)
      (absent : before.entries.contains
        (c.config.requestAt (before.counter c.config.requestPath)) = false)
      (present : after.entries.get? (c.config.requestAt (before.counter c.config.requestPath)) =
        some ⟨(NodeRequest.new poolLabel consumerLabel).encode, some id⟩) :
      Placement c poolLabel consumerLabel id before after
        (.ok ((NodeRequest.new poolLabel consumerLabel).placed
          (c.config.requestAt (before.counter c.config.requestPath))
          (Config.identityAt (before.counter c.config.requestPath))))

variable (c : Client) (poolLabel consumerLabel : String) {s : Store} {id : SessionId}

/-! ## Paths of the settings -/

theorem isEntryPath_namespacePath (r : Root) :
    Store.isEntryPath (c.config.namespacePath r) = true :=
  isEntryPath_child c.isEntryPath_basePath (c.isName_root r) (c.toList_namespacePath r)

theorem parent?_namespacePath (r : Root) :
    parent? (c.config.namespacePath r) = some c.config.basePath :=
  parent?_eq_some (ne_empty_of_isEntryPath c.isEntryPath_basePath) (c.isName_root r).2
    (c.toList_namespacePath r)

theorem lastSegment_namespacePath (r : Root) :
    lastSegment (c.config.namespacePath r) = c.config.root r := by
  rw [lastSegment_eq (c.isName_root r).2 (c.toList_namespacePath r)]
  exact String.ofList_toList

theorem parent?_requestAt (number : Nat) :
    parent? (c.config.requestAt number) = some c.config.requestPath := by
  rcases c.exists_requestAt number with ⟨name, hname, -, hpath⟩
  exact parent?_eq_some (ne_empty_of_isEntryPath c.isEntryPath_requestPath) hname.2 hpath

/-! ## One request -/

/-- Above the stem of a request stand the request root and what is above that. -/
theorem mem_ancestors_requestStem_iff {above : String} :
    above ∈ ancestors c.config.requestStem ↔ IsWithin above c.config.requestPath := by
  rcases c.exists_requestStem with ⟨name, hslash, -, hstem⟩
  have hchild : IsAbove above c.config.requestStem ↔
      above = c.config.requestPath ∨ IsAbove above c.config.requestPath :=
    isAbove_child_iff (ne_empty_of_isEntryPath c.isEntryPath_requestPath) hslash hstem
  unfold IsWithin
  rw [mem_ancestors_iff, hchild]
  constructor
  · rintro ⟨rfl | habove, -⟩
    · exact .inl rfl
    · exact .inr habove
  · rintro (rfl | habove)
    · exact ⟨.inl rfl, ne_root_of_isEntryPath c.isEntryPath_requestPath⟩
    · have hmem := Store.mem_ancestors_of_isAbove c.isEntryPath_requestPath habove
      exact ⟨.inr habove, (mem_ancestors_iff.1 hmem).2⟩

/-- How a request ends is read off the store before. -/
theorem placement_of_rooted (hs : s.Rooted) (hopen : s.isSessionOpen id = true) :
    let reply := (c.request poolLabel consumerLabel).run (.plain id) s
    c.Placement poolLabel consumerLabel id s reply.state reply.answer := by
  have hnext : s.nextPath c.config.requestPath c.config.requestStem =
      c.config.requestAt (s.counter c.config.requestPath) := rfl
  have hcreate := Store.createSequential_eq hs c.parent?_requestStem c.isEntryPath_requestPath
    (NodeRequest.new poolLabel consumerLabel).encode (some id)
  have hrun := c.request_run poolLabel consumerLabel hopen
  rw [hnext] at hcreate
  dsimp only at hrun ⊢
  generalize (c.request poolLabel consumerLabel).run (.plain id) s = reply at hrun ⊢
  rcases hrun with ⟨hrefused, hplaced⟩
  cases hblocked : s.blocked? c.config.requestStem with
  | some above =>
      rw [hblocked] at hcreate
      rw [hcreate] at hrefused
      rcases hrefused _ rfl with ⟨hanswer, hstate⟩
      unfold Store.blocked? at hblocked
      have habove := c.mem_ancestors_requestStem_iff.1 (List.mem_of_find?_eq_some hblocked)
      rw [hanswer]
      exact .blocked above habove (List.find?_some hblocked) hstate
  | none =>
      rw [hblocked] at hcreate
      have hfree : ∀ above, IsWithin above c.config.requestPath → s.isEphemeral above = false := by
        intro above habove
        simpa using List.find?_eq_none.1 hblocked above (c.mem_ancestors_requestStem_iff.2 habove)
      dsimp only at hcreate
      cases hpresent : s.entries.contains
          (c.config.requestAt (s.counter c.config.requestPath)) with
      | true =>
          rw [if_pos hpresent] at hcreate
          rw [hcreate] at hrefused
          rw [(hrefused _ rfl).1]
          exact .taken hfree hpresent
      | false =>
          rw [if_neg (by simp [hpresent])] at hcreate
          rw [hcreate] at hplaced
          rcases (hplaced _ rfl).2 _ (c.config.identity?_requestAt _) with ⟨hanswer, hstate⟩
          rw [hanswer]
          refine .placed hfree hpresent ?_
          rw [hstate, Store.get?_write, if_pos rfl]

end Client

/-- Below settings that can be used, each root is a well-formed path, one segment below the
namespace.  The path of a request has its priority and its number in it, is well formed and directly
below the request root, and has the number as its identity.  In every store that a run leads to, a
request on an open session is placed at the next of these paths, or fails because an entry of a
session is in the way or the path is taken. -/
theorem request_placement (c : Client) :
    (∀ r, isValid (c.config.namespacePath r) = true ∧
        parent? (c.config.namespacePath r) = some c.config.basePath ∧
        lastSegment (c.config.namespacePath r) = c.config.root r) ∧
      (∀ number, let path := c.config.requestAt number
        path = c.config.requestPath ++ "/" ++ Text.decimal c.config.priority.toNat ++ "-" ++
            Text.padded 10 10 number ∧
          isValid path = true ∧ parent? path = some c.config.requestPath ∧
          identity? path = some (Text.padded 10 10 number)) ∧
      ∀ (s : Store) (id : SessionId) (poolLabel consumerLabel : String), s.Reachable →
        s.isSessionOpen id = true →
          let reply := (c.request poolLabel consumerLabel).run (.plain id) s
          c.Placement poolLabel consumerLabel id s reply.state reply.answer := by
  refine ⟨fun r => ?_, fun number => ?_, fun s id poolLabel consumerLabel hs hopen => ?_⟩
  · exact ⟨isValid_of_isEntryPath (c.isEntryPath_namespacePath r), c.parent?_namespacePath r,
      c.lastSegment_namespacePath r⟩
  · exact ⟨rfl, isValid_of_isEntryPath (c.isEntryPath_requestAt number), c.parent?_requestAt number,
      c.config.identity?_requestAt number⟩
  · exact c.placement_of_rooted poolLabel consumerLabel hs.entriesSound.rooted hopen

/-- Settings with a namespace in which there are separators, blanks and letters of other
alphabets. -/
def Client.ofManyScripts : Client := ⟨({} : Config).withBasePath "/my pool-1/é-", by decide⟩

/-- Requests of all priorities have one count, so this one has the second number. -/
theorem request_placement_second :
    let c := Client.ofManyScripts
    let s := ((Service.fresh {} .halfMinute).after
      [.openSession, .call ⟨1⟩ (.create "/my pool-1/é-/requests/9-" [])]).store
    let reply := (c.request "label" "consumer").run (.plain ⟨1⟩) s
    c.Placement "label" "consumer" ⟨1⟩ s reply.state reply.answer ∧
      reply.answer = .ok ((NodeRequest.new "label" "consumer").placed
        "/my pool-1/é-/requests/100-0000000001" "0000000001") := by
  intro c s reply
  exact ⟨(request_placement c).2.2 s ⟨1⟩ "label" "consumer" ⟨{}, .halfMinute, _, rfl⟩ (by decide),
    by decide⟩

/-- An entry of a session may stand where the namespace is, and nothing can be placed below it. -/
example :
    let c : Client := ⟨({} : Config).withBasePath "/pool/0000000000", by decide⟩
    let s := ((Service.fresh {} .halfMinute).after
      [.openSession, .call ⟨1⟩ (.create "/pool/" [])]).store
    ((c.request "label" "consumer").run (.plain ⟨1⟩) s).answer =
      .error (.store (.badPath "/pool/0000000000 is ephemeral and cannot have children")) := by
  decide

end FencedPool
