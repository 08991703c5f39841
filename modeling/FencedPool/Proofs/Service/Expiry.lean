import FencedPool.Proofs.Procedure.Dialogue
import FencedPool.Proofs.Store.SessionEnd
import FencedPool.Proofs.Store.Tracking

/-!
# Expiry — silent sessions are expired, and only these

A session gives a sign of life when it is opened and with every heartbeat that gets through.  From
the history of a run one can tell its last sign and the timeout that it was opened with, and nothing
else decides whether it is expired: at any time, those open sessions are whose last sign lies more
than their timeout back.  They end together, and no order among them can be told from what is left.

This file defines:

* `Sign` — a sign of life, and `Sign.Overdue`;
* `Service.lastSign?` — the last sign that a session has given in a run;
* `ServiceAction.isQuiet` — the actions that are neither signs of life nor ends of sessions;
* `Service.beats` — the times at which the heartbeats of a session arrive;
* `Service.ExpiresSilent` — what is known of expiry after a run.

The main statement is `expires_silent`.
-/

namespace FencedPool

/-! ## Signs of life -/

/-- A sign of life of a session, and how long the session may be silent afterwards. -/
structure Sign where
  time : Instant
  timeout : Duration

namespace Sign

variable {sign : Sign} {now : Instant}

/-- Whether the sign lies more than the timeout back: a longer span of time lies in between. -/
def Overdue (sign : Sign) (now : Instant) : Prop :=
  ∃ d : Duration, sign.timeout.toNanos < d.toNanos ∧ (sign.time.after d).nanos ≤ now.nanos

/-- No span is longer than the longest duration, so with this timeout nothing is ever overdue. -/
theorem overdue_iff : sign.Overdue now ↔
    sign.time.nanos + sign.timeout.toNanos < now.nanos ∧ sign.timeout ≠ .longest := by
  constructor
  · rintro ⟨d, hlonger, hnow⟩
    refine ⟨Nat.lt_of_lt_of_le (Nat.add_lt_add_left hlonger _) hnow, fun hlongest => ?_⟩
    have hd := d.toNanos_le_longest
    rw [← hlongest] at hd
    exact absurd hlonger (Nat.not_lt_of_le hd)
  · rintro ⟨hnow, hlongest⟩
    have hlt : sign.timeout.toNanos < Duration.longest.toNanos := by
      refine Nat.lt_of_le_of_ne sign.timeout.toNanos_le_longest fun heq => ?_
      exact hlongest (Duration.toNanos_injective heq)
    rcases Duration.exists_toNanos (Nat.succ_le_of_lt hlt) with ⟨d, hd⟩
    refine ⟨d, ?_, ?_⟩
    · rw [hd]
      exact Nat.lt_succ_self _
    · rw [Instant.after, hd, Nat.succ_eq_add_one, ← Nat.add_assoc]
      exact Nat.succ_le_of_lt hnow

/-- A sign is overdue when more time has passed since, by the clock, than the timeout. -/
theorem overdue_iff_elapsed :
    sign.Overdue now ↔ sign.timeout.toNanos < (sign.time.until now).toNanos := by
  have hle := sign.timeout.toNanos_le_longest
  have hlongest : sign.timeout ≠ .longest ↔ sign.timeout.toNanos ≠ Duration.longest.toNanos :=
    not_congr ⟨congrArg _, Duration.toNanos_injective⟩
  rw [overdue_iff, hlongest, Instant.until, Duration.toNanos_ofNanos, Nat.lt_min]
  -- the longest duration is only a bound here
  generalize Duration.longest.toNanos = longest at hle ⊢
  omega

end Sign

/-! ## Sessions after an action -/

/-- Whether an action neither opens nor ends a session and is no heartbeat. -/
def ServiceAction.isQuiet : ServiceAction → Bool
  | .openSession | .heartbeat _ | .closeSession _ | .expire => false
  | _ => true

namespace Store

variable {s : Store} {id : SessionId}

theorem get?_closeSession_sessions (s : Store) (j id : SessionId) :
    (s.closeSession j).sessions.get? id = if id = j then none else s.sessions.get? id := by
  by_cases hopen : s.isSessionOpen j = true
  · rw [closeSession_sessions hopen, Table.get?_erase]
  · rw [closeSession_of_closed hopen]
    split
    · next hid =>
        rw [hid]
        exact Option.isNone_iff_eq_none.1 (by simpa [isSessionOpen, Table.contains] using hopen)
    · rfl

theorem get?_closeAll_sessions (s : Store) (ids : List SessionId) (id : SessionId) :
    (ids.foldl closeSession s).sessions.get? id =
      if id ∈ ids then none else s.sessions.get? id := by
  induction ids generalizing s with
  | nil => simp
  | cons j rest ih =>
      rw [List.foldl_cons, ih, get?_closeSession_sessions]
      by_cases hrest : id ∈ rest
      · simp [hrest]
      · by_cases hid : id = j <;> simp [hrest, hid]

theorem mem_stale_iff {clock : Clock} :
    id ∈ s.stale clock ↔ ∃ record, s.sessions.get? id = some record ∧
      Sign.Overdue ⟨record.lastHeartbeat, record.timeout⟩ clock.now := by
  unfold stale
  simp only [Table.mem_keys_iff, Table.contains, Option.isSome_iff_exists,
    Table.get?_filter_eq_some_iff, Sign.overdue_iff_elapsed, Clock.elapsedSince]
  exact exists_congr fun record => and_congr_right fun _ => decide_eq_true_iff

theorem nodup_keys {α : Type} (t : Table SessionId α) : t.keys.Nodup := by
  unfold Table.keys
  rw [List.Nodup, List.pairwise_map]
  refine t.ascending.imp fun {a b} hab heq => ?_
  have hself : compare b.1 b.1 = .eq := Std.ReflCmp.compare_self
  rw [heq, hself] at hab
  cases hab

/-- Ending sessions in another order leaves the same store. -/
theorem closeAll_congr (hlocks : s.LocksSound) (hentries : s.EntriesSound)
    {first second : List SessionId} (hsame : ∀ id, id ∈ first ↔ id ∈ second) :
    first.foldl closeSession s = second.foldl closeSession s := by
  have hfirst := closeAll_ended hlocks hentries first
  have hsecond := closeAll_ended hlocks hentries second
  have hwatches₁ := (s.closeAll_tracks first).watches
  have hwatches₂ := (s.closeAll_tracks second).watches
  generalize first.foldl closeSession s = s₁ at *
  generalize second.foldl closeSession s = s₂ at *
  have hentries' : s₁.entries = s₂.entries := by
    refine Table.ext_get? fun path => Option.ext fun entry => ?_
    simp only [hfirst.entries, hsecond.entries, hsame]
  have hlocks' : s₁.locks = s₂.locks := by
    refine Table.ext_get? fun path => Option.ext fun lock => ?_
    simp only [hfirst.locks, hsecond.locks, hsame]
  have hsessions : s₁.sessions = s₂.sessions := by
    refine Table.ext_get? fun id => Option.ext fun record => ?_
    simp only [hfirst.sessions, hsecond.sessions, hsame]
  -- what a watch is told depends on the entries before and after only
  have hchange : ∀ p, s.change? s₁ none p = s.change? s₂ none p := by
    intro p
    unfold change?
    rw [hentries']
  have hwatches : s₁.watches = s₂.watches := by
    rw [hwatches₁, hwatches₂]
    simp only [hchange]
  have hsequences := hfirst.sequences.trans hsecond.sequences.symm
  have hopened := hfirst.opened.trans hsecond.opened.symm
  have hgrants := hfirst.grants.trans hsecond.grants.symm
  cases s₁
  cases s₂
  rw [Store.mk.injEq]
  exact ⟨hentries', hsequences, hlocks', hwatches, hsessions, hopened, hgrants⟩

end Store

namespace Service

variable {s : Service} {id : SessionId} {a : ServiceAction}

theorem act_sessions_of_quiet (s : Service) (ha : a.isQuiet = true) :
    (s.act a).store.sessions = s.store.sessions := by
  rcases s with ⟨store, clock, timeout⟩
  cases a with
  | openSession => cases ha
  | heartbeat id => cases ha
  | closeSession id => cases ha
  | expire => cases ha
  | advance d => rfl
  | setTimeout d => rfl
  | call id c =>
      have hrespond : (act ⟨store, clock, timeout⟩ (.call id c)).store =
          (store.respond id (fun _ => none) c).2 := rfl
      rw [hrespond]
      exact store.respond_sessions c
  | put path data => exact (store.put_change path data).sessions
  | setData path data => exact (store.setData_change path data).sessions
  | delete path => exact (store.delete_change path).sessions
  | poll id => rfl
  | dropWatch id => rfl
  | provision scheduler count label =>
      exact (provision_change store scheduler count label).sessions
  | runOnce scheduler perRequest => exact (runOnce_change store scheduler perRequest).sessions

theorem get?_openSession_sessions (s : Service) (id : SessionId) :
    (s.act .openSession).store.sessions.get? id =
      if s.openSession.answer = id then some ⟨s.clock.now, s.sessionTimeout⟩
      else s.store.sessions.get? id := by
  have hsessions : (s.act .openSession).store.sessions =
      s.store.sessions.insert s.openSession.answer ⟨s.clock.now, s.sessionTimeout⟩ := rfl
  rw [hsessions, Table.get?_insert]
  simp only [eq_comm]

/-- A heartbeat of a session that is not open is refused; otherwise it is noted with the time. -/
theorem heartbeat_sessions (s : Service) (j : SessionId) :
    match s.store.sessions.get? j with
    | none => (s.heartbeat j).1.isOk = false ∧ (s.act (.heartbeat j)).store = s.store
    | some record => (s.heartbeat j).1.isOk = true ∧ (s.act (.heartbeat j)).store.sessions =
        s.store.sessions.insert j { record with lastHeartbeat := s.clock.now } := by
  have hanswer : (s.heartbeat j).1 = (s.store.heartbeat j s.clock.now).1 := rfl
  have hstore : (s.act (.heartbeat j)).store = (s.store.heartbeat j s.clock.now).2 := rfl
  rw [hanswer, hstore]
  unfold Store.heartbeat
  cases s.store.sessions.get? j with
  | none => exact ⟨rfl, rfl⟩
  | some record => exact ⟨rfl, rfl⟩

theorem get?_expire_sessions (s : Service) (id : SessionId) :
    (s.act .expire).store.sessions.get? id =
      if id ∈ s.expire.answer then none else s.store.sessions.get? id :=
  s.store.get?_closeAll_sessions (s.store.stale s.clock) id

theorem mem_expire_iff : id ∈ s.expire.answer ↔
    ∃ record, s.store.sessions.get? id = some record ∧
      Sign.Overdue ⟨record.lastHeartbeat, record.timeout⟩ s.clock.now :=
  Store.mem_stale_iff

/-! ## The last sign of a session -/

/-- The last sign of a session when one more thing is done.  A session gives signs when it is opened
and with its heartbeats; a heartbeat that is refused is none. -/
def signed (s : Service) (id : SessionId) (last : Option Sign) : ServiceAction → Option Sign
  | .openSession =>
      if s.openSession.answer = id then some ⟨s.clock.now, s.sessionTimeout⟩ else last
  | .heartbeat j =>
      if j = id ∧ (s.heartbeat j).1.isOk then
        last.map fun sign => { sign with time := s.clock.now }
      else last
  | _ => last

/-- The last sign of a session after a run, given the last one before it. -/
def lastSign? (s : Service) (id : SessionId) (last : Option Sign) :
    List ServiceAction → Option Sign
  | [] => last
  | a :: rest => (s.act a).lastSign? id (s.signed id last a) rest

theorem signed_openSession (s : Service) (id : SessionId) (last : Option Sign) :
    s.signed id last .openSession =
      if s.openSession.answer = id then some ⟨s.clock.now, s.sessionTimeout⟩ else last := rfl

theorem signed_heartbeat (s : Service) (id : SessionId) (last : Option Sign) (j : SessionId) :
    s.signed id last (.heartbeat j) =
      if j = id ∧ (s.heartbeat j).1.isOk then
        last.map fun sign => { sign with time := s.clock.now }
      else last := rfl

theorem signed_of_quiet (s : Service) {last : Option Sign} (ha : a.isQuiet = true) :
    s.signed id last a = last := by
  cases a <;> first | rfl | cases ha

/-- Whether a session's record, if it is open, is its last sign. -/
def Records (s : Service) (id : SessionId) (last : Option Sign) : Prop :=
  ∀ record, s.store.sessions.get? id = some record →
    last = some ⟨record.lastHeartbeat, record.timeout⟩

theorem Records.act {last : Option Sign} (h : s.Records id last) (a : ServiceAction) :
    (s.act a).Records id (s.signed id last a) := by
  intro record hrecord
  by_cases ha : a.isQuiet = true
  · rw [s.act_sessions_of_quiet ha] at hrecord
    rw [s.signed_of_quiet ha]
    exact h record hrecord
  · cases a with
    | openSession =>
        rw [get?_openSession_sessions] at hrecord
        rw [signed_openSession]
        split at hrecord
        · next hid =>
            cases hrecord
            rw [if_pos hid]
        · next hid =>
            rw [if_neg hid]
            exact h record hrecord
    | heartbeat j =>
        have hbeat := s.heartbeat_sessions j
        rw [signed_heartbeat]
        cases hj : s.store.sessions.get? j with
        | none =>
            simp only [hj] at hbeat
            rw [hbeat.2] at hrecord
            rw [hbeat.1, if_neg (by simp)]
            exact h record hrecord
        | some old =>
            simp only [hj] at hbeat
            rw [hbeat.2, Table.get?_insert] at hrecord
            simp only [hbeat.1, and_true]
            by_cases hid : id = j
            · rw [if_pos hid] at hrecord
              cases hrecord
              rw [if_pos hid.symm, h old (hid ▸ hj)]
              rfl
            · rw [if_neg hid] at hrecord
              rw [if_neg (Ne.symm hid)]
              exact h record hrecord
    | closeSession j =>
        change (s.store.closeSession j).sessions.get? id = some record at hrecord
        rw [Store.get?_closeSession_sessions] at hrecord
        split at hrecord
        · cases hrecord
        · exact h record hrecord
    | expire =>
        rw [get?_expire_sessions] at hrecord
        split at hrecord
        · cases hrecord
        · exact h record hrecord
    | _ => exact absurd rfl ha

theorem Records.after {last : Option Sign} (h : s.Records id last) (actions : List ServiceAction) :
    (s.after actions).Records id (s.lastSign? id last actions) := by
  induction actions generalizing s last with
  | nil => exact h
  | cons a rest ih => exact ih (h.act a)

end Service

/-! ## Sessions with steady heartbeats -/

def ServiceAction.isBeatOf (id : SessionId) : ServiceAction → Bool
  | .heartbeat j => j == id
  | _ => false

namespace Service

variable {s : Service} {id : SessionId} {a : ServiceAction}

/-- The times at which heartbeats of a session arrive in a run. -/
def beats (s : Service) (id : SessionId) : List ServiceAction → List Instant
  | [] => []
  | a :: rest => (if a.isBeatOf id then [s.clock.now] else []) ++ (s.act a).beats id rest

/-- Whether the heartbeats of a session in a run are never further apart than a timeout, counted
from an earlier sign of life to the end of the run. -/
def Steady (s : Service) (id : SessionId) (sign : Sign) (actions : List ServiceAction) : Prop :=
  List.IsChain (fun earlier later : Instant => later.nanos ≤ earlier.nanos + sign.timeout.toNanos)
    (sign.time :: (s.beats id actions ++ [(s.after actions).clock.now]))

theorem now_le_act (s : Service) (a : ServiceAction) :
    s.clock.now.nanos ≤ (s.act a).clock.now.nanos := by
  rcases s with ⟨store, clock, timeout⟩
  cases a with
  | advance d => exact Nat.le_add_right _ _
  | _ => exact Nat.le_refl _

/-- Neither a heartbeat nor the end of a run lies before its start. -/
theorem now_le_of_mem_beats {actions : List ServiceAction} {t : Instant}
    (ht : t ∈ s.beats id actions ++ [(s.after actions).clock.now]) :
    s.clock.now.nanos ≤ t.nanos := by
  induction actions generalizing s with
  | nil => exact Nat.le_of_eq (congrArg Instant.nanos (List.mem_singleton.1 ht).symm)
  | cons a rest ih =>
      rw [beats, List.append_assoc, List.mem_append] at ht
      rcases ht with hnow | hlater
      · split at hnow
        · exact Nat.le_of_eq (congrArg Instant.nanos (List.mem_singleton.1 hnow).symm)
        · cases hnow
      · exact Nat.le_trans (s.now_le_act a) (ih hlater)

/-- A session with steady heartbeats is not overdue. -/
theorem Steady.not_overdue {sign : Sign} {actions : List ServiceAction}
    (h : s.Steady id sign actions) : ¬ sign.Overdue s.clock.now := by
  have hmem : ∀ t ∈ s.beats id actions ++ [(s.after actions).clock.now],
      s.clock.now.nanos ≤ t.nanos := fun t => now_le_of_mem_beats
  unfold Steady at h
  cases hnext : s.beats id actions ++ [(s.after actions).clock.now] with
  | nil => simp at hnext
  | cons t later =>
      rw [hnext] at h hmem
      have hgap := (List.isChain_cons_cons.1 h).1
      have hnow := hmem t List.mem_cons_self
      rw [Sign.overdue_iff]
      exact fun hover => absurd hover.1 (Nat.not_lt_of_le (Nat.le_trans hnow hgap))

theorem Steady.of_beat {sign : Sign} {rest : List ServiceAction}
    (h : s.Steady id sign (.heartbeat id :: rest)) :
    (s.act (.heartbeat id)).Steady id ⟨s.clock.now, sign.timeout⟩ rest := by
  unfold Steady at h
  simp only [beats, ServiceAction.isBeatOf, beq_self_eq_true, if_true, List.cons_append,
    List.nil_append] at h
  exact (List.isChain_cons_cons.1 h).2

theorem Steady.of_other {sign : Sign} {rest : List ServiceAction}
    (h : s.Steady id sign (a :: rest)) (ha : a.isBeatOf id = false) :
    (s.act a).Steady id sign rest := by
  unfold Steady at h
  rw [beats, ha] at h
  exact h

/-- Whatever is neither a heartbeat of a session nor its end leaves its record as it was. -/
theorem get?_act_sessions {record : SessionRecord}
    (hrecord : s.store.sessions.get? id = some record) (hid : id.number ≤ s.store.opened)
    (hbeat : a.isBeatOf id = false) (hclose : a ≠ .closeSession id)
    (hkept : id ∉ s.expire.answer) : (s.act a).store.sessions.get? id = some record := by
  by_cases ha : a.isQuiet = true
  · rw [s.act_sessions_of_quiet ha]
    exact hrecord
  · cases a with
    | openSession =>
        -- the number of a new session has not been given before
        have hnew : s.openSession.answer ≠ id := by
          rintro rfl
          exact absurd hid (Nat.not_succ_le_self _)
        rw [get?_openSession_sessions, if_neg hnew]
        exact hrecord
    | heartbeat j =>
        have hj : id ≠ j := by
          rintro rfl
          simp [ServiceAction.isBeatOf] at hbeat
        have hother := s.heartbeat_sessions j
        cases hfound : s.store.sessions.get? j with
        | none =>
            simp only [hfound] at hother
            rw [hother.2]
            exact hrecord
        | some old =>
            simp only [hfound] at hother
            rw [hother.2, Table.get?_insert, if_neg hj]
            exact hrecord
    | closeSession j =>
        have hj : id ≠ j := by
          rintro rfl
          exact hclose rfl
        change (s.store.closeSession j).sessions.get? id = some record
        rw [Store.get?_closeSession_sessions, if_neg hj]
        exact hrecord
    | expire =>
        rw [get?_expire_sessions, if_neg hkept]
        exact hrecord
    | _ => exact absurd rfl ha

/-- A session that is open, and whose heartbeats are steady in what is still to come. -/
structure Lively (s : Service) (id : SessionId) (sign : Sign) (actions : List ServiceAction) :
    Prop where
  number : id.number ≤ s.store.opened
  record : s.store.sessions.get? id = some ⟨sign.time, sign.timeout⟩
  steady : s.Steady id sign actions

theorem Lively.not_mem_expire {sign : Sign} {actions : List ServiceAction}
    (h : s.Lively id sign actions) : id ∉ s.expire.answer := by
  rw [mem_expire_iff, h.record]
  rintro ⟨record, ⟨⟩, hoverdue⟩
  exact h.steady.not_overdue hoverdue

theorem Lively.act {sign : Sign} {rest : List ServiceAction} (h : s.Lively id sign (a :: rest))
    (hclose : a ≠ .closeSession id) : ∃ time, (s.act a).Lively id ⟨time, sign.timeout⟩ rest := by
  have hnumber : id.number ≤ (s.act a).store.opened := by
    rw [act_opened]
    exact Nat.le_trans h.number (Nat.le_add_right _ _)
  by_cases hbeat : a.isBeatOf id = true
  · obtain rfl : a = .heartbeat id := by
      cases a with
      | heartbeat j => rw [eq_of_beq hbeat]
      | _ => cases hbeat
    have hsessions := s.heartbeat_sessions id
    simp only [h.record] at hsessions
    refine ⟨s.clock.now, hnumber, ?_, h.steady.of_beat⟩
    rw [hsessions.2, Table.get?_insert_self]
  · have hother : a.isBeatOf id = false := Bool.eq_false_iff.2 hbeat
    exact ⟨sign.time, hnumber,
      get?_act_sessions h.record h.number hother hclose h.not_mem_expire, h.steady.of_other hother⟩

/-- A session with steady heartbeats stays open until it is closed. -/
theorem Lively.after {sign : Sign} {actions : List ServiceAction} (h : s.Lively id sign actions)
    (hclose : .closeSession id ∉ actions) :
    (s.after actions).store.isSessionOpen id = true := by
  induction actions generalizing s sign with
  | nil => exact Option.isSome_iff_exists.2 ⟨_, h.record⟩
  | cons a rest ih =>
      have hfirst : a ≠ .closeSession id := by
        rintro rfl
        exact hclose List.mem_cons_self
      rcases h.act hfirst with ⟨time, hnext⟩
      exact ih hnext fun hmem => hclose (List.mem_cons_of_mem a hmem)

/-- A session with steady heartbeats is never expired, also after it has been closed. -/
theorem Lively.not_expired (hlocks : s.store.LocksSound) {sign : Sign}
    {first last : List ServiceAction} (h : s.Lively id sign (first ++ last)) :
    id ∉ (s.after first).expire.answer := by
  induction first generalizing s sign with
  | nil => exact h.not_mem_expire
  | cons a rest ih =>
      have hnext := act_locksSound s a hlocks
      by_cases hclose : a = .closeSession id
      · subst hclose
        have hnone : (s.act (.closeSession id)).store.sessions.get? id = none := by
          change (s.store.closeSession id).sessions.get? id = none
          rw [Store.get?_closeSession_sessions, if_pos rfl]
        have hnumber : id.number ≤ (s.act (.closeSession id)).store.opened := by
          rw [act_opened]
          exact h.number
        intro hmem
        rcases mem_expire_iff.1 hmem with ⟨record, hrecord, -⟩
        -- a session that has ended is not opened again
        have hopen := isSessionOpen_of_after hnext hnumber
          (Option.isSome_iff_exists.2 ⟨record, hrecord⟩)
        rw [Store.isSessionOpen, Table.contains, hnone] at hopen
        cases hopen
      · rcases h.act hclose with ⟨time, hlively⟩
        exact ih hnext hlively

/-! ## Expiry after a run -/

/-- How silent sessions are expired after a run. -/
structure ExpiresSilent (start : Service) (actions : List ServiceAction) : Prop where
  /-- a session that is open has given a sign -/
  signs : ∀ id, (start.after actions).store.isSessionOpen id = true →
    (start.lastSign? id none actions).isSome = true
  /-- those are expired that are open and overdue, each once -/
  answer : ∀ id, id ∈ (start.after actions).expire.answer ↔
    (start.after actions).store.isSessionOpen id = true ∧
      ∃ sign, start.lastSign? id none actions = some sign ∧
        sign.Overdue (start.after actions).clock.now
  once : (start.after actions).expire.answer.Nodup
  /-- they end, with what they own, and nothing else does -/
  ended : (start.after actions).store.SessionsEnded (start.after actions).expire.answer
    (start.after actions).expire.state.store
  /-- the store afterwards is the same, whatever order they end in -/
  order : ∀ ids : List SessionId, ids.Perm (start.after actions).expire.answer →
    ids.foldl Store.closeSession (start.after actions).store =
      (start.after actions).expire.state.store
  /-- calls, writes and another timeout for new sessions change nothing for the open ones -/
  quiet : ∀ a, a.isQuiet = true →
    ((start.after actions).act a).store.sessions = (start.after actions).store.sessions
  /-- a session whose heartbeats are never further apart than its timeout is never expired, and
  stays open until it is closed -/
  lively : ∀ before rest, actions = before ++ .openSession :: rest →
    let opening := start.after before
    let id := opening.openSession.answer
    (opening.act .openSession).Steady id ⟨opening.clock.now, opening.sessionTimeout⟩ rest →
      (∀ first last, rest = first ++ last →
        id ∉ ((opening.act .openSession).after first).expire.answer) ∧
      (.closeSession id ∉ rest → (start.after actions).store.isSessionOpen id = true)

end Service

/-- In every run exactly the sessions are expired that have been silent for too long. -/
theorem expires_silent (clock : Clock) (timeout : Duration) (actions : List ServiceAction) :
    (Service.fresh clock timeout).ExpiresSilent actions := by
  let start := Service.fresh clock timeout
  have hreachable : (start.after actions).store.Reachable := ⟨clock, timeout, actions, rfl⟩
  have hlocks := hreachable.locksSound
  have hentries := hreachable.entriesSound
  have hrecords : ∀ id, (start.after actions).Records id (start.lastSign? id none actions) := by
    intro id
    have hnone : start.Records id none := by
      intro record hrecord
      cases hrecord
    exact hnone.after actions
  constructor
  case signs =>
    intro id hopen
    rcases Option.isSome_iff_exists.1 hopen with ⟨record, hrecord⟩
    exact Option.isSome_iff_exists.2 ⟨_, hrecords id record hrecord⟩
  case answer =>
    intro id
    rw [Service.mem_expire_iff]
    constructor
    · rintro ⟨record, hrecord, hoverdue⟩
      exact ⟨Option.isSome_iff_exists.2 ⟨record, hrecord⟩, _, hrecords id record hrecord, hoverdue⟩
    · rintro ⟨hopen, sign, hsign, hoverdue⟩
      rcases Option.isSome_iff_exists.1 hopen with ⟨record, hrecord⟩
      have hsame := hsign.symm.trans (hrecords id record hrecord)
      cases hsame
      exact ⟨record, hrecord, hoverdue⟩
  case once => exact Store.nodup_keys _
  case ended => exact Store.closeAll_ended hlocks hentries _
  case order =>
    intro ids hperm
    exact Store.closeAll_congr hlocks hentries fun id => hperm.mem_iff
  case quiet => exact fun a ha => Service.act_sessions_of_quiet _ ha
  case lively =>
    rintro before rest rfl opening id hsteady
    have hlively : (opening.act .openSession).Lively id
        ⟨opening.clock.now, opening.sessionTimeout⟩ rest := by
      refine ⟨Nat.le_refl _, ?_, hsteady⟩
      rw [Service.get?_openSession_sessions, if_pos rfl]
    constructor
    · rintro first last rfl
      have hopening : (opening.act .openSession).store.Reachable := by
        refine ⟨clock, timeout, before ++ [.openSession], ?_⟩
        rw [Service.after_append]
        rfl
      exact hlively.not_expired hopening.locksSound
    · intro hclose
      rw [Service.after_append]
      exact hlively.after hclose

end FencedPool
