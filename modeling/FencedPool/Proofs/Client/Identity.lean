import FencedPool.Proofs.Client.Request
import FencedPool.Proofs.Path.Identity
import FencedPool.Proofs.Store.Numbering

/-!
# Identity — requests are told apart by their identities, for good

The identity of a request is the sequence number that the store has put behind the client's stem.
All requests below one request root share one count, whatever their priorities are, and the count
never goes back.  So no identity is given out twice, even after entries, sessions or the request
root itself have gone.

A request makes a single call, so it is no loss that it runs in one step.  Everything else that
clients do is a run of calls, and any calls may come in between.

This file defines:

* `PlacingStep` and `Service.placedAlong` — the requests that are placed in a run;
* `Service.Identified` — what is known of them.

The main statement is `request_identities`.
-/

namespace FencedPool

open FencedPool.Path

/-! ## Numbers in paths -/

theorem Text.padded_injective {width n m : Nat} (h : padded 10 width n = padded 10 width m) :
    n = m := by
  calc n
      = Nat.ofDigitChars 10 (padded 10 width n).toList 0 := (value_padded width n).symm
    _ = Nat.ofDigitChars 10 (padded 10 width m).toList 0 := by rw [h]
    _ = m := value_padded width m

namespace Config

/-- The identity of a request that has been given a sequence number. -/
def identityAt (number : Nat) : String := Text.padded 10 Store.sequenceDigits number

theorem identity?_requestAt (c : Config) (number : Nat) :
    identity? (c.requestAt number) = some (identityAt number) := by
  refine identity?_eq_some_iff.2
    ⟨?_, ?_, (c.requestPath ++ "/" ++ Text.decimal c.priority.toNat).toList, ?_⟩
  · intro hempty
    exact Text.padded_ne_nil _ _ _ (congrArg String.toList hempty)
  · intro hmem
    have hdigit := Text.isDigit_of_mem_padded hmem
    cases hdigit
  · simp [requestAt, requestStem, identityAt, Char.toString]

/-- The parent of a stem is the request root. -/
theorem eq_requestPath_of_parent? {c : Config} {parent : String}
    (hparent : parent? c.requestStem = some parent) (hroot : parent ≠ Path.root) :
    parent = c.requestPath := by
  rcases exists_name_of_parent? hparent hroot with ⟨-, name, hname, hstem⟩
  let priority := Nat.toDigits 10 c.priority.toNat ++ [sequenceSeparator]
  have hpriority : '/' ∉ priority := by
    intro hmem
    rcases List.mem_append.1 hmem with hdigit | hseparator
    · have hisDigit := Nat.isDigit_of_mem_toDigits (by decide) (by decide) hdigit
      cases hisDigit
    · cases List.mem_singleton.1 hseparator
  have hspelled : c.requestStem.toList = c.requestPath.toList ++ '/' :: priority := by
    simp [requestStem, priority, Text.decimal, Char.toString]
  -- both are what stands before the last slash
  have hcut := cutLast_append c.requestPath.toList hpriority
  rw [← hspelled, hstem, cutLast_append parent.toList hname] at hcut
  exact String.toList_inj.1 (Prod.mk.inj (Option.some.inj hcut)).1

end Config

/-! ## One request -/

namespace Client

open Procedure

variable {c : Client} {poolLabel consumerLabel : String} {r : NodeRequest} {s : Store}
  {id : SessionId}

/-- A request is placed at the next number below the request root, where nothing stood. -/
theorem request_placed (hs : s.Rooted)
    (h : ((c.request poolLabel consumerLabel).run (.plain id) s).answer = .ok r) :
    let number := s.counter c.config.requestPath
    r.path = some (c.config.requestAt number) ∧ r.id = some (Config.identityAt number) ∧
      ((c.request poolLabel consumerLabel).run (.plain id) s).state.counter c.config.requestPath =
        number + 1 := by
  intro number
  rcases request_created h with ⟨path, identity, hcreated, hidentity, rfl, hstate⟩
  rcases Store.create_ok hs hcreated with ⟨parent, hparent, hentry, hpath, -, -, -, hcounter⟩
  have hroot : parent ≠ Path.root := Path.ne_root_of_isEntryPath hentry
  have hplace : path = c.config.requestAt number := by
    rw [hpath, Config.eq_requestPath_of_parent? hparent hroot]
    rfl
  refine ⟨congrArg some hplace, ?_, ?_⟩
  · rw [hplace, Config.identity?_requestAt] at hidentity
    exact hidentity.symm
  · rw [hstate, hcounter, ← Config.eq_requestPath_of_parent? hparent hroot,
      Store.counter_numbering, if_pos rfl, Config.eq_requestPath_of_parent? hparent hroot]

/-- What reading a request again gives on an open session. -/
theorem refresh_answer (hopen : s.isSessionOpen id = true) {copy : NodeRequest}
    {path identity : String} (hpath : copy.path = some path)
    (hidentity : identity? path = some identity) :
    ((refresh copy).run (.plain id) s).answer =
      match s.read path with
      | .error e => .error (.ofStore e)
      | .ok data =>
          match NodeRequest.decode path data with
          | .error e => .error (.malformedRecord e)
          | .ok record => .ok (record.placed path identity) := by
  unfold refresh
  rw [hpath]
  dsimp only
  rw [hidentity]
  dsimp only
  rw [answer_ask_bind, Session.plain_perform_of_open hopen]
  simp only [Session.answer]
  cases s.read path with
  | error e => rfl
  | ok data =>
      dsimp only
      cases NodeRequest.decode path data with
      | error e => rfl
      | ok record => rfl

/-- A copy of a request is read again by its path alone. -/
theorem refresh_ok_iff {copy fresh : NodeRequest} {path identity : String}
    (hpath : copy.path = some path) (hidentity : identity? path = some identity) :
    ((refresh copy).run (.plain id) s).answer = .ok fresh ↔
      s.isSessionOpen id = true ∧ ∃ data record, s.read path = .ok data ∧
        NodeRequest.decode path data = .ok record ∧ fresh = record.placed path identity := by
  by_cases hopen : s.isSessionOpen id = true
  · rw [refresh_answer hopen hpath hidentity]
    simp only [hopen, true_and]
    cases s.read path with
    | error e => exact iff_of_false nofun nofun
    | ok data =>
        dsimp only
        cases hdecode : NodeRequest.decode path data with
        | error e =>
            refine iff_of_false nofun ?_
            rintro ⟨_, record, ⟨⟩, hrecord, -⟩
            rw [hdecode] at hrecord
            cases hrecord
        | ok record =>
            constructor
            · rintro ⟨⟩
              exact ⟨data, record, rfl, hdecode, rfl⟩
            · rintro ⟨_, _, ⟨⟩, hrecord, rfl⟩
              rw [hdecode] at hrecord
              cases hrecord
              rfl
  · unfold refresh
    rw [hpath]
    dsimp only
    rw [hidentity]
    dsimp only
    rw [answer_ask_bind, Session.plain_perform_of_closed hopen]
    exact iff_of_false nofun fun h => hopen h.1

end Client

/-! ## Runs -/

/-- A step of a run in which clients place requests: a client does so, or anything else is done to
the service. -/
inductive PlacingStep
  | act (a : ServiceAction)
  | request (id : SessionId) (c : Client) (poolLabel consumerLabel : String)

namespace Service

open Procedure

/-- The service after a step. -/
def place (s : Service) : PlacingStep → Service
  | .act a => s.act a
  | .request id c poolLabel consumerLabel =>
      { s with store := ((c.request poolLabel consumerLabel).run (.plain id) s.store).state }

def placeAll (s : Service) (steps : List PlacingStep) : Service := steps.foldl place s

/-- The request that a step places, with the client that it is placed for. -/
def placed? (s : Service) : PlacingStep → Option (Client × NodeRequest)
  | .act _ => none
  | .request id c poolLabel consumerLabel =>
      ((c.request poolLabel consumerLabel).run (.plain id) s.store).answer.toOption.map (c, ·)

/-- The requests that are placed in a run, in order. -/
def placedAlong (s : Service) : List PlacingStep → List (Client × NodeRequest)
  | [] => []
  | step :: rest => (s.placed? step).toList ++ (s.place step).placedAlong rest

/-- The requests that are placed in a run below one request root. -/
def placedBelow (s : Service) (root : String) (steps : List PlacingStep) :
    List (Client × NodeRequest) :=
  (s.placedAlong steps).filter fun x => x.1.config.requestPath = root

variable {s : Service} {steps : List PlacingStep} {root : String}

theorem placedBelow_cons (s : Service) (root : String) (step : PlacingStep)
    (rest : List PlacingStep) :
    s.placedBelow root (step :: rest) =
      ((s.placed? step).toList.filter fun x => x.1.config.requestPath = root) ++
        (s.place step).placedBelow root rest :=
  List.filter_append _ _

/-- Placing a request is a run of calls. -/
theorem exists_place (s : Service) (step : PlacingStep) :
    ∃ actions, s.after actions = s.place step := by
  cases step with
  | act a => exact ⟨[a], rfl⟩
  | request id c poolLabel consumerLabel =>
      have hdialogue := dialogue_plain id (c.request poolLabel consumerLabel) s.store
      rcases hdialogue.exists_run s rfl with ⟨actions, hafter, -, -⟩
      exact ⟨actions, hafter⟩

theorem place_entriesSound (hs : s.store.EntriesSound) (step : PlacingStep) :
    (s.place step).store.EntriesSound := by
  rcases s.exists_place step with ⟨actions, hafter⟩
  rw [← hafter]
  exact after_preserves act_entriesSound s actions hs

theorem placeAll_entriesSound (hs : s.store.EntriesSound) (steps : List PlacingStep) :
    (s.placeAll steps).store.EntriesSound := by
  induction steps generalizing s with
  | nil => exact hs
  | cons step rest ih => exact ih (place_entriesSound hs step)

/-- In no run the count below a parent goes back. -/
theorem counter_le_after (s : Service) (hs : s.store.EntriesSound) (actions : List ServiceAction)
    (p : String) : s.store.counter p ≤ (s.after actions).store.counter p := by
  induction actions generalizing s with
  | nil => exact Nat.le_refl _
  | cons a rest ih =>
      calc s.store.counter p
          ≤ (s.act a).store.counter p := s.counter_le_act hs a p
        _ ≤ ((s.act a).after rest).store.counter p := ih (s.act a) (s.act_entriesSound a hs)

theorem counter_le_place (hs : s.store.EntriesSound) (step : PlacingStep) (p : String) :
    s.store.counter p ≤ (s.place step).store.counter p := by
  rcases s.exists_place step with ⟨actions, hafter⟩
  rw [← hafter]
  exact s.counter_le_after hs actions p

/-- Whether a request has been placed with a sequence number. -/
def HasNumber (x : Client × NodeRequest) (number : Nat) : Prop :=
  x.2.path = some (x.1.config.requestAt number) ∧ x.2.id = some (Config.identityAt number)

/-- A request that a step places below a root has the next number there. -/
theorem hasNumber_of_placed? (hs : s.store.Rooted) {step : PlacingStep} {x : Client × NodeRequest}
    (hx : s.placed? step = some x) (hroot : x.1.config.requestPath = root) :
    HasNumber x (s.store.counter root) ∧
      (s.place step).store.counter root = s.store.counter root + 1 := by
  cases step with
  | act a => cases hx
  | request id c poolLabel consumerLabel =>
      rcases Option.map_eq_some_iff.1 hx with ⟨r, hanswer, rfl⟩
      have hok : ((c.request poolLabel consumerLabel).run (.plain id) s.store).answer = .ok r := by
        cases hresult : ((c.request poolLabel consumerLabel).run (.plain id) s.store).answer with
        | error e =>
            rw [hresult] at hanswer
            cases hanswer
        | ok placed =>
            rw [hresult] at hanswer
            exact congrArg Except.ok (Option.some.inj hanswer)
      rcases Client.request_placed hs hok with ⟨hpath, hid, hcounter⟩
      change c.config.requestPath = root at hroot
      rw [hroot] at hpath hid hcounter
      exact ⟨⟨hpath, hid⟩, hcounter⟩

/-- Whether one request has been placed under a lower number than another. -/
def IsEarlier (x y : Client × NodeRequest) : Prop :=
  ∃ n m, HasNumber x n ∧ HasNumber y m ∧ n < m

/-- The requests below a root are numbered from the count there on, upwards. -/
theorem placedBelow_numbered (hs : s.store.EntriesSound) (root : String)
    (steps : List PlacingStep) :
    (∀ x ∈ s.placedBelow root steps, ∃ n, s.store.counter root ≤ n ∧ HasNumber x n) ∧
      (s.placedBelow root steps).Pairwise IsEarlier := by
  induction steps generalizing s with
  | nil => exact ⟨nofun, .nil⟩
  | cons step rest ih =>
      rcases ih (place_entriesSound hs step) with ⟨hnumbered, hascending⟩
      have hcount := counter_le_place hs step root
      have hlater : ∀ x ∈ (s.place step).placedBelow root rest,
          ∃ n, s.store.counter root ≤ n ∧ HasNumber x n := by
        intro x hx
        rcases hnumbered x hx with ⟨n, hn, hnumber⟩
        exact ⟨n, Nat.le_trans hcount hn, hnumber⟩
      rw [placedBelow_cons]
      cases hplaced : s.placed? step with
      | none => exact ⟨hlater, hascending⟩
      | some x =>
          by_cases hroot : x.1.config.requestPath = root
          · rw [Option.toList_some, List.filter_cons_of_pos (by simpa using hroot)]
            rcases hasNumber_of_placed? hs.rooted hplaced hroot with ⟨hnumber, hnext⟩
            constructor
            · exact List.forall_mem_cons.2 ⟨⟨_, Nat.le_refl _, hnumber⟩, hlater⟩
            · refine List.pairwise_cons.2 ⟨fun y hy => ?_, hascending⟩
              -- the count has moved on, and later requests are numbered from there
              rcases hnumbered y hy with ⟨m, hm, hnumber'⟩
              exact ⟨_, m, hnumber, hnumber', by omega⟩
          · rw [Option.toList_some, List.filter_cons_of_neg (by simpa using hroot)]
            exact ⟨hlater, hascending⟩

theorem IsEarlier.id_ne {x y : Client × NodeRequest} (h : IsEarlier x y) : x.2.id ≠ y.2.id := by
  rcases h with ⟨n, m, hx, hy, hlt⟩
  intro hsame
  rw [hx.2, hy.2] at hsame
  have hequal : n = m := Text.padded_injective (Option.some.inj hsame)
  omega

theorem IsEarlier.path_ne {x y : Client × NodeRequest} (h : IsEarlier x y) :
    x.2.path ≠ y.2.path := by
  rcases h with ⟨n, m, hx, hy, hlt⟩
  intro hsame
  rw [hx.1, hy.1] at hsame
  -- the paths end in the numbers, whatever the stems are
  have hidentities : some (Config.identityAt n) = some (Config.identityAt m) := by
    calc some (Config.identityAt n)
        = identity? (x.1.config.requestAt n) := (Config.identity?_requestAt _ n).symm
      _ = identity? (y.1.config.requestAt m) := congrArg identity? (Option.some.inj hsame)
      _ = some (Config.identityAt m) := Config.identity?_requestAt _ m
  have hequal : n = m := Text.padded_injective (Option.some.inj hidentities)
  omega

/-- What is known of the requests that have been placed below one request root in a run. -/
structure Identified (start : Service) (root : String) (steps : List PlacingStep) : Prop where
  identities : ((start.placedBelow root steps).map (·.2.id)).Nodup
  paths : ((start.placedBelow root steps).map (·.2.path)).Nodup
  /-- an identity is what follows the stem of the client -/
  suffix : ∀ x ∈ start.placedBelow root steps, ∃ identity, x.2.id = some identity ∧
    x.2.path = some (x.1.config.requestStem ++ identity)
  /-- a copy keeps path and identity when it is read again, whatever the record says -/
  refreshed : ∀ x ∈ start.placedBelow root steps, ∃ path identity, x.2.path = some path ∧
    x.2.id = some identity ∧ ∀ (copy fresh : NodeRequest) (id : SessionId), copy.path = x.2.path →
      (((Client.refresh copy).run (.plain id) (start.placeAll steps).store).answer = .ok fresh ↔
        (start.placeAll steps).store.isSessionOpen id = true ∧ ∃ data record,
          (start.placeAll steps).store.read path = .ok data ∧
            NodeRequest.decode path data = .ok record ∧ fresh = record.placed path identity)
  /-- a creation that succeeds takes the place of no entry -/
  created : ∀ (id : SessionId) (stem : String) (data : Bytes) (path : String),
    ((start.placeAll steps).perform id (.create stem data)).1 = .ok path →
      (start.placeAll steps).store.entries.get? path = none ∧
        ∀ p entry, (start.placeAll steps).store.entries.get? p = some entry →
          ((start.placeAll steps).act (.call id (.create stem data))).store.entries.get? p =
            some entry

end Service

/-- In every run, requests below one request root get different identities and paths, for good. -/
theorem request_identities (clock : Clock) (timeout : Duration) (root : String)
    (steps : List PlacingStep) : (Service.fresh clock timeout).Identified root steps := by
  let start := Service.fresh clock timeout
  have hstart : start.store.EntriesSound := Store.entriesSound_empty
  have hend : (start.placeAll steps).store.EntriesSound :=
    Service.placeAll_entriesSound hstart steps
  rcases Service.placedBelow_numbered hstart root steps with ⟨hnumbered, hascending⟩
  constructor
  · exact List.pairwise_map.2 (hascending.imp Service.IsEarlier.id_ne)
  · exact List.pairwise_map.2 (hascending.imp Service.IsEarlier.path_ne)
  · intro x hx
    rcases hnumbered x hx with ⟨n, -, hpath, hid⟩
    exact ⟨Config.identityAt n, hid, hpath⟩
  · intro x hx
    rcases hnumbered x hx with ⟨n, -, hpath, hid⟩
    refine ⟨x.1.config.requestAt n, Config.identityAt n, hpath, hid, ?_⟩
    intro copy fresh id hcopy
    exact Client.refresh_ok_iff (hcopy.trans hpath) (Config.identity?_requestAt _ n)
  · intro id stem data path hanswer
    by_cases hopen : (start.placeAll steps).store.isSessionOpen id = true
    · have hperform := Service.perform_of_open hopen (.create stem data)
      have hcreated := (congrArg Prod.fst hperform).symm.trans hanswer
      have hstore := congrArg (·.2.store) hperform
      rcases Store.create_ok hend.rooted hcreated with ⟨_, -, -, -, habsent, -, hkept, -⟩
      refine ⟨habsent, fun p entry hentry => ?_⟩
      exact (congrArg (·.entries.get? p) hstore).trans (hkept p entry hentry)
    · rw [Service.perform_of_closed hopen] at hanswer
      cases hanswer

/-- Neither the deletion of a request nor that of the request root gives its number back. -/
example :
    let c : Client := ⟨{}, by decide⟩
    let run : List PlacingStep :=
      [.act .openSession, .request ⟨1⟩ c "label" "consumer",
        .act (.delete "/nodepool/requests/100-0000000000"), .act (.delete "/nodepool/requests"),
        .request ⟨1⟩ c "label" "consumer"]
    ((Service.fresh {} .halfMinute).placedBelow "/nodepool/requests" run).map (·.2.id) =
      [some "0000000000", some "0000000001"] := by
  decide

end FencedPool
