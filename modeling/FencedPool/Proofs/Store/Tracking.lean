import FencedPool.Proofs.Store.Changes

/-!
# Tracking — watches are told of what becomes of their entries

Watches are told of changes at many places: for each parent that is created on the way, for each
entry of a session that ends, and when data are written.  Seen from outside, what has become of an
entry is clear from what stood at its path before and afterwards, and from whether its data have
been written.  Each operation tells the watches exactly that.

This file defines:

* `Watch.told` — a watch that is told of a change, or of none;
* `Store.change?` — what has become of the entry at a path;
* `Store.Tracks` — watches are told exactly what has become of their entries.

The main statements are `put_tracks`, `setData_tracks`, `delete_tracks`, `createSequential_tracks`
and `closeAll_tracks`.
-/

namespace FencedPool

open FencedPool.Path

/-! ## What a watch is told -/

namespace Watch

/-- A watch after it has been told of a change, or of none. -/
def told (w : Watch) : Option WatchEvent → Watch
  | none => w
  | some event => w.notify event

theorem told_path (w : Watch) (change : Option WatchEvent) : (w.told change).path = w.path := by
  cases change with
  | none => rfl
  | some event =>
      unfold told notify
      dsimp only
      split <;> rfl

theorem notify_of_ne {w : Watch} {event : WatchEvent} (h : w.path ≠ event.path) :
    w.notify event = w := by
  unfold notify
  exact if_neg fun hboth => h hboth.2

theorem notify_of_pending {w : Watch} {event : WatchEvent} (hpending : w.state = .pending)
    (hpath : w.path = event.path) : (w.notify event).state = .resolved event := by
  unfold notify
  rw [if_pos ⟨hpending, hpath⟩]

theorem notify_of_settled {w : Watch} (hsettled : w.state ≠ .pending) (event : WatchEvent) :
    w.notify event = w := by
  unfold notify
  exact if_neg fun hboth => hsettled hboth.1

/-- Of two changes of its entry a watch only notices the first. -/
theorem told_told {w : Watch} {first : Option WatchEvent}
    (hfirst : ∀ event, first = some event → event.path = w.path) (second : Option WatchEvent) :
    (w.told first).told second = w.told (first.or second) := by
  cases first with
  | none => rfl
  | some event =>
      have hpath : w.path = event.path := (hfirst event rfl).symm
      have hsettled : (w.notify event).state ≠ .pending := by
        by_cases hpending : w.state = .pending
        · rw [notify_of_pending hpending hpath]
          exact nofun
        · rw [notify_of_settled hpending]
          exact hpending
      cases second with
      | none => rfl
      | some later => exact notify_of_settled hsettled later

end Watch

namespace Store

variable {s s' s'' : Store} {path p : String} {written : Option String}

/-! ## What becomes of an entry -/

/-- What has become of the entry at a path, when an operation has written data at a given path or
at none. -/
def change? (before after : Store) (written : Option String) (p : String) : Option WatchEvent :=
  match before.entries.get? p, after.entries.get? p with
  | none, none => none
  | none, some _ => some (.created p)
  | some _, none => some (.deleted p)
  | some _, some _ => if written = some p then some (.dataChanged p) else none

theorem path_of_change? {event : WatchEvent} (h : s.change? s' written p = some event) :
    event.path = p := by
  unfold change? at h
  split at h
  · cases h
  · cases h
    rfl
  · cases h
    rfl
  · split at h
    · cases h
      rfl
    · cases h

theorem change?_of_get?_eq (hsame : s'.entries.get? p = s.entries.get? p)
    (hwritten : written ≠ some p) : s.change? s' written p = none := by
  unfold change?
  rw [hsame]
  cases s.entries.get? p with
  | none => rfl
  | some entry => exact if_neg hwritten

theorem change?_none_of_get?_eq (hsame : s'.entries.get? p = s.entries.get? p) :
    s.change? s' none p = none :=
  change?_of_get?_eq hsame (Option.some_ne_none p).symm

theorem change?_of_absent (hbefore : s.entries.get? p = none) (hafter : s'.entries.get? p = none) :
    s.change? s' written p = none := by
  unfold change?
  rw [hbefore, hafter]

/-- What becomes of an entry in two operations, of which only one touches it. -/
theorem change?_trans (h : s.change? s' none p = none ∨ s'.change? s'' written p = none) :
    s.change? s'' written p = (s.change? s' none p).or (s'.change? s'' written p) := by
  unfold change? at h ⊢
  cases hfirst : s.entries.get? p <;> cases hmiddle : s'.entries.get? p <;>
    cases hlast : s''.entries.get? p <;> simp_all

/-! ## Watches that are told -/

/-- Watches are told exactly what becomes of their entries; where nothing is told, the entry stands
as before. -/
structure Tracks (written : Option String) (s s' : Store) : Prop where
  watches : s'.watches = s.watches.map fun w => w.told (s.change? s' written w.path)
  kept : ∀ p, s.change? s' written p = none → s'.entries.get? p = s.entries.get? p

theorem Tracks.of_same (hentries : s'.entries = s.entries) (hwatches : s'.watches = s.watches) :
    Tracks none s s' where
  watches := by
    have hsilent : ∀ w : Watch, w.told (s.change? s' none w.path) = w := by
      intro w
      have hnone : s.change? s' none w.path = none :=
        change?_none_of_get?_eq (by rw [hentries])
      rw [hnone]
      rfl
    simp only [hsilent, List.map_id', hwatches]
  kept p _ := by rw [hentries]

/-- One entry is changed, and the watches are notified of it. -/
theorem Tracks.of_event (event : WatchEvent)
    (hwatches : s'.watches = s.watches.map (·.notify event))
    (hchange : s.change? s' written event.path = some event)
    (hothers : ∀ p, p ≠ event.path → s'.entries.get? p = s.entries.get? p)
    (hwritten : ∀ p, written = some p → p = event.path) : Tracks written s s' where
  watches := by
    rw [hwatches]
    apply List.map_congr_left
    intro w _
    by_cases hpath : w.path = event.path
    · rw [hpath, hchange]
      rfl
    · have hnone : s.change? s' written w.path = none :=
        change?_of_get?_eq (hothers w.path hpath) fun h => hpath (hwritten w.path h)
      rw [hnone, Watch.notify_of_ne hpath]
      rfl
  kept p hnone := by
    apply hothers p
    rintro rfl
    rw [hchange] at hnone
    cases hnone

theorem Tracks.trans (h₁ : Tracks none s s') (h₂ : Tracks written s' s'')
    (hdisjoint : ∀ p, s.change? s' none p = none ∨ s'.change? s'' written p = none) :
    Tracks written s s'' where
  watches := by
    rw [h₂.watches, h₁.watches, List.map_map]
    apply List.map_congr_left
    intro w _
    have hpath : (w.told (s.change? s' none w.path)).path = w.path := w.told_path _
    calc (w.told (s.change? s' none w.path)).told
          (s'.change? s'' written (w.told (s.change? s' none w.path)).path)
        = (w.told (s.change? s' none w.path)).told (s'.change? s'' written w.path) := by rw [hpath]
      _ = w.told ((s.change? s' none w.path).or (s'.change? s'' written w.path)) :=
          Watch.told_told (fun _ => path_of_change?) _
      _ = w.told (s.change? s'' written w.path) := by rw [change?_trans (hdisjoint w.path)]
  kept p hnone := by
    rw [change?_trans (hdisjoint p), Option.or_eq_none_iff] at hnone
    exact (h₂.kept p hnone.2).trans (h₁.kept p hnone.1)

/-! ## Writing and removing -/

theorem write_created (entry : Entry) (habsent : s.entries.get? path = none)
    (hwritten : ∀ p, written = some p → p = path) :
    Tracks written s (s.write path entry (.created path)) := by
  refine .of_event (.created path) rfl ?_ ?_ hwritten
  · change s.change? (s.write path entry (.created path)) written path = some (.created path)
    unfold change?
    rw [habsent, get?_write, if_pos rfl]
  · intro p hp
    rw [get?_write]
    exact if_neg hp

theorem write_dataChanged {old : Entry} (entry : Entry) (hold : s.entries.get? path = some old) :
    Tracks (some path) s (s.write path entry (.dataChanged path)) := by
  refine .of_event (.dataChanged path) rfl ?_ ?_ ?_
  · change s.change? (s.write path entry (.dataChanged path)) (some path) path =
      some (.dataChanged path)
    unfold change?
    rw [hold, get?_write, if_pos rfl]
    exact if_pos rfl
  · intro p hp
    rw [get?_write]
    exact if_neg hp
  · intro p hp
    exact (Option.some.inj hp).symm

theorem remove_deleted {old : Entry} (hold : s.entries.get? path = some old) :
    Tracks none s (s.remove path) := by
  refine .of_event (.deleted path) rfl ?_ ?_ nofun
  · change s.change? (s.remove path) none path = some (.deleted path)
    unfold change?
    rw [hold, get?_remove, if_pos rfl]
  · intro p hp
    rw [get?_remove]
    exact if_neg hp

/-! ## Several entries -/

/-- Each parent that is missing is created once. -/
theorem withParents_tracks (s : Store) (paths : List String) :
    Tracks none s (s.withParents paths) := by
  induction paths generalizing s with
  | nil => exact .of_same rfl rfl
  | cons path rest ih =>
      unfold withParents
      split
      · exact ih s
      · next hmissing =>
          have habsent : s.entries.get? path = none := by simpa [Table.contains] using hmissing
          refine (write_created _ habsent fun p hp => by cases hp).trans (ih _) ?_
          intro p
          by_cases hp : p = path
          · -- the parent exists from here on
            refine .inr (change?_none_of_get?_eq ?_)
            rw [get?_withParents, get?_write, if_pos hp]
            rfl
          · refine .inl (change?_none_of_get?_eq ?_)
            rw [get?_write]
            exact if_neg hp

/-- Each of several entries is removed once. -/
theorem removeAll_tracks {paths : List String} (hnodup : paths.Nodup)
    (hpresent : ∀ p ∈ paths, ∃ entry, s.entries.get? p = some entry) :
    Tracks none s (paths.foldl remove s) := by
  induction paths generalizing s with
  | nil => exact .of_same rfl rfl
  | cons path rest ih =>
      rcases List.nodup_cons.1 hnodup with ⟨hnot, hrest⟩
      rcases List.forall_mem_cons.1 hpresent with ⟨⟨old, hold⟩, hlater⟩
      have hpresentRest : ∀ p ∈ rest, ∃ entry, (s.remove path).entries.get? p = some entry := by
        intro p hp
        have hne : p ≠ path := fun h => hnot (h ▸ hp)
        rw [get?_remove, if_neg hne]
        exact hlater p hp
      refine (remove_deleted hold).trans (ih hrest hpresentRest) ?_
      intro p
      by_cases hp : p = path
      · refine .inr (change?_of_absent ?_ ?_)
        · rw [get?_remove, if_pos hp]
        · rw [get?_removeAll, hp, if_pos List.mem_cons_self]
      · refine .inl (change?_none_of_get?_eq ?_)
        rw [get?_remove]
        exact if_neg hp

/-! ## Operations -/

theorem put_tracks (hs : s.Rooted) (path : String) (data : Bytes) :
    Tracks ((s.put path data).1.toOption.map fun _ => path) s (s.put path data).2 := by
  rcases put_cases hs path data with ⟨e, -, hput⟩ | ⟨entry, hentry, hput⟩ | ⟨habsent, hput⟩
  · rw [hput]
    exact .of_same rfl rfl
  · rw [hput]
    exact write_dataChanged _ hentry
  · rw [hput]
    have hsame := get?_withParents_of_not_mem (s := s) (not_mem_ancestors path)
    have hwritten : ∀ p, some path = some p → p = path := fun p hp => (Option.some.inj hp).symm
    refine (s.withParents_tracks _).trans
      (write_created _ (hsame.trans habsent) hwritten) fun p => ?_
    by_cases hp : p = path
    · rw [hp]
      exact .inl (change?_none_of_get?_eq hsame)
    · refine .inr (change?_of_get?_eq ?_ fun h => hp (hwritten p h))
      rw [get?_write]
      exact if_neg hp

theorem setData_tracks (s : Store) (path : String) (data : Bytes) :
    Tracks ((s.setData path data).1.toOption.map fun _ => path) s (s.setData path data).2 := by
  rcases setData_cases s path data with ⟨e, -, hset⟩ | ⟨entry, hentry, hset⟩
  · rw [hset]
    exact .of_same rfl rfl
  · rw [hset]
    exact write_dataChanged _ hentry

theorem delete_tracks (s : Store) (path : String) : Tracks none s (s.delete path).2 := by
  rcases delete_cases s path with ⟨e, -, hdelete⟩ | ⟨hpresent, hdelete⟩
  · rw [hdelete]
    exact .of_same rfl rfl
  · rw [hdelete]
    rcases contains_iff.1 hpresent with ⟨entry, hentry⟩
    exact remove_deleted hentry

theorem createSequential_tracks (hs : s.Rooted) (stem : String) (data : Bytes)
    (owner : Option SessionId) : Tracks none s (s.createSequential stem data owner).2 := by
  rcases create_cases hs stem data owner with
    ⟨e, -, hcreate⟩ | ⟨parent, -, -, ⟨-, hcreate⟩ | ⟨habsent, hnot, hcreate⟩⟩
  · rw [hcreate]
    exact .of_same rfl rfl
  · rw [hcreate]
    exact .of_same rfl rfl
  · rw [hcreate]
    have hsame := get?_withParents_of_not_mem (s := s) hnot
    have hparents := s.withParents_tracks (ancestors stem)
    -- using up a number changes no entry and tells no watch
    have hnumbered : Tracks none s ((s.withParents (ancestors stem)).numbering parent) :=
      ⟨hparents.watches, hparents.kept⟩
    refine hnumbered.trans (write_created _ (hsame.trans habsent) fun p hp => by cases hp)
      fun p => ?_
    by_cases hp : p = s.nextPath parent stem
    · rw [hp]
      exact .inl (change?_none_of_get?_eq hsame)
    · refine .inr (change?_none_of_get?_eq ?_)
      rw [get?_write]
      exact if_neg hp

/-! ## Sessions -/

theorem heartbeat_tracks (s : Store) (id : SessionId) (now : Instant) :
    Tracks none s (s.heartbeat id now).2 := by
  rcases s.heartbeat_cases id now with ⟨e, -, hbeat⟩ | ⟨sessions, hbeat⟩
  · rw [hbeat]
    exact .of_same rfl rfl
  · rw [hbeat]
    exact .of_same rfl rfl

theorem get?_of_closeSession {id : SessionId} {entry : Entry}
    (h : (s.closeSession id).entries.get? p = some entry) : s.entries.get? p = some entry := by
  by_cases hopen : s.isSessionOpen id = true
  · exact ((get?_closeSession hopen p entry).1 h).1
  · rwa [closeSession_of_closed hopen] at h

theorem closeSession_tracks (s : Store) (id : SessionId) : Tracks none s (s.closeSession id) := by
  by_cases hopen : s.isSessionOpen id = true
  · let ended : Store := { s with sessions := s.sessions.erase id }
    have hnodup : (ended.ownedBy id).Nodup := by
      refine (pairwise_keys _).imp fun {a b} hab => ?_
      rintro rfl
      exact String.lt_irrefl a hab
    have hremoved : Tracks none ended ((ended.ownedBy id).foldl remove ended) := by
      apply removeAll_tracks hnodup
      intro p hp
      rcases mem_ownedBy_iff.1 hp with ⟨entry, hentry, -⟩
      exact ⟨entry, hentry⟩
    unfold closeSession
    rw [if_pos hopen]
    exact ⟨hremoved.watches, hremoved.kept⟩
  · rw [closeSession_of_closed hopen]
    exact .of_same rfl rfl

theorem get?_closeAll_of_absent {ids : List SessionId} (habsent : s.entries.get? p = none) :
    (ids.foldl closeSession s).entries.get? p = none := by
  induction ids generalizing s with
  | nil => exact habsent
  | cons id rest ih =>
      apply ih
      cases hafter : (s.closeSession id).entries.get? p with
      | none => rfl
      | some entry => exact absurd (get?_of_closeSession hafter) (by simp [habsent])

theorem closeAll_tracks (s : Store) (ids : List SessionId) :
    Tracks none s (ids.foldl closeSession s) := by
  induction ids generalizing s with
  | nil => exact .of_same rfl rfl
  | cons id rest ih =>
      refine (s.closeSession_tracks id).trans (ih _) fun p => ?_
      -- what has gone with the first session stays away
      cases hafter : (s.closeSession id).entries.get? p with
      | none => exact .inr (change?_of_absent hafter
          (get?_closeAll_of_absent (s := s.closeSession id) hafter))
      | some entry =>
          have hbefore := get?_of_closeSession hafter
          exact .inl (change?_none_of_get?_eq (hafter.trans hbefore.symm))

end Store

end FencedPool
