import FencedPool.Lock
import Mathlib.Data.List.Induction

/-!
# History — the outcomes of a lock, told by what came before them

A lock is given inputs one after the other, from any sessions, under any fences and with any tokens,
also with stale ones and with those of other paths.  All that an input can bring about is determined
by the last grant that has not been released since, and this grant can be read off the outcomes
before, without looking at the lock.  So sessions take turns: each acquisition is followed by its
own release, and whoever comes in between is denied.

This file defines:

* `PathLock.after` and `PathLock.events` — a lock along a list of inputs;
* `LockEvent.Outstanding` — the last grant without a later release;
* `PathLock.Answers` — what one input brings about, told by the grant in force;
* `LockEvent.Follows` — an event in terms of the events before it.

The main statement is `lock_history`.
-/

namespace FencedPool

/-- Whether an outcome changes who holds a lock. -/
def LockOutcome.isEffective : LockOutcome → Bool
  | .acquired _ => true
  | .released _ => true
  | .denied _ => false
  | .ignored => false

/-- An input and its outcome. -/
structure LockEvent where
  input : LockInput
  outcome : LockOutcome
  deriving DecidableEq, Repr

namespace LockEvent

/-- Whether an event is an acquisition or a release. -/
def isEffective (e : LockEvent) : Bool := e.outcome.isEffective

/-- Whether a token is that of the last acquisition, with no release after it. -/
def Outstanding (events : List LockEvent) (t : LockToken) : Prop :=
  ∃ before input after, events = before ++ ⟨input, .acquired t⟩ :: after ∧
    ∀ e ∈ after, e.isEffective = false

/-- Whether acquisitions and releases take turns, beginning with an acquisition. -/
def Alternates (events : List LockEvent) : Prop :=
  ∀ i e, (events.filter (·.isEffective))[i]? = some e →
    i % 2 = 0 ∧ (∃ t, e.outcome = .acquired t) ∨ i % 2 = 1 ∧ ∃ holder, e.outcome = .released holder

/-- How an event follows from the grants that are in force before it, of which there is one at most.
A lock is acquired when none is, by an acquire, and the token has the path of the lock and the
session and the fence of the input.  It is denied when one is, by an acquire from any session.  It
is released by the very token of the grant or by the end of its session. -/
structure Follows (path : String) (inForce : LockToken → Prop) (e : LockEvent) : Prop where
  acquired_iff : ∀ t, e.outcome = .acquired t ↔
    (∀ u, ¬ inForce u) ∧ e.input = .acquire t.holder t.fence ∧ t.path = path
  denied_iff : ∀ current, e.outcome = .denied current ↔
    (∃ t, inForce t ∧ t.holder = current) ∧ ∃ holder fence, e.input = .acquire holder fence
  released_iff : ∀ holder, e.outcome = .released holder ↔
    ∃ t, inForce t ∧ t.holder = holder ∧ (e.input = .release t ∨ e.input = .sessionClosed holder)

theorem outstanding_nil (t : LockToken) : ¬ Outstanding [] t := by
  rintro ⟨before, input, after, hevents, -⟩
  simp at hevents

/-- An acquisition is outstanding from its event on until the next event that is effective. -/
theorem outstanding_concat {events : List LockEvent} {e : LockEvent} {t : LockToken} :
    Outstanding (events ++ [e]) t ↔
      e.outcome = .acquired t ∨ e.isEffective = false ∧ Outstanding events t := by
  constructor
  · rintro ⟨before, input, after, hevents, hquiet⟩
    rcases List.eq_nil_or_concat after with rfl | ⟨more, last, rfl⟩
    · left
      have hlast : e = ⟨input, .acquired t⟩ := by simpa using (List.append_inj' hevents rfl).2
      rw [hlast]
    · right
      have hsplit : events ++ [e] = (before ++ ⟨input, .acquired t⟩ :: more) ++ [last] := by
        simpa using hevents
      rcases List.append_inj' hsplit rfl with ⟨hfront, hlast⟩
      obtain rfl : e = last := by simpa using hlast
      refine ⟨hquiet e (by simp), before, input, more, hfront, ?_⟩
      intro x hx
      exact hquiet x (by simp [hx])
  · rintro (hlast | ⟨hquiet, before, input, after, rfl, hafter⟩)
    · exact ⟨events, e.input, [], by simp [← hlast], nofun⟩
    · refine ⟨before, input, after ++ [e], by simp, ?_⟩
      intro x hx
      rcases List.mem_append.1 hx with hx | hx
      · exact hafter x hx
      · rw [List.mem_singleton.1 hx]
        exact hquiet

end LockEvent

open LockEvent

namespace PathLock

/-- The lock after a list of inputs. -/
def after (lock : PathLock) : List LockInput → PathLock
  | [] => lock
  | input :: rest => (lock.transition input).1.after rest

/-- What a list of inputs brings about, each input with its outcome. -/
def events (lock : PathLock) : List LockInput → List LockEvent
  | [] => []
  | input :: rest => ⟨input, (lock.transition input).2⟩ :: (lock.transition input).1.events rest

variable {lock : PathLock} {t : LockToken}

theorem after_append (lock : PathLock) (first rest : List LockInput) :
    lock.after (first ++ rest) = (lock.after first).after rest := by
  induction first generalizing lock with
  | nil => rfl
  | cons input first ih => exact ih (lock.transition input).1

theorem events_append (lock : PathLock) (first rest : List LockInput) :
    lock.events (first ++ rest) = lock.events first ++ (lock.after first).events rest := by
  induction first generalizing lock with
  | nil => rfl
  | cons input first ih => exact congrArg (_ :: ·) (ih (lock.transition input).1)

theorem map_input_events (lock : PathLock) (inputs : List LockInput) :
    (lock.events inputs).map (·.input) = inputs := by
  induction inputs generalizing lock with
  | nil => rfl
  | cons input rest ih => exact congrArg (input :: ·) (ih (lock.transition input).1)

@[simp] theorem after_path (lock : PathLock) (inputs : List LockInput) :
    (lock.after inputs).path = lock.path := by
  induction inputs generalizing lock with
  | nil => rfl
  | cons input rest ih => exact (ih (lock.transition input).1).trans (lock.transition_path input)

/-- Where a list of events is cut, the list of inputs is cut as well. -/
theorem exists_inputs_of_events {inputs : List LockInput} {before later : List LockEvent}
    {e : LockEvent} (h : lock.events inputs = before ++ e :: later) :
    ∃ first rest, inputs = first ++ e.input :: rest ∧ before = lock.events first ∧
      e.outcome = ((lock.after first).transition e.input).2 := by
  induction before generalizing lock inputs with
  | nil =>
      cases inputs with
      | nil => cases h
      | cons input rest =>
          cases h
          exact ⟨[], rest, rfl, rfl, rfl⟩
  | cons x before ih =>
      cases inputs with
      | nil => cases h
      | cons input inputs =>
          rcases List.cons.inj h with ⟨rfl, hlater⟩
          rcases ih hlater with ⟨first, rest, rfl, rfl, houtcome⟩
          exact ⟨input :: first, rest, rfl, rfl, houtcome⟩

/-! ## One input -/

/-- A lock is determined by its path and the grant in force. -/
theorem eq_of_grant (lock : PathLock) :
    lock = match lock.grant? with
      | none => new lock.path
      | some t => ⟨lock.path, .held t.holder t.fence⟩ := by
  rcases lock with ⟨path, _ | ⟨holder, fence⟩⟩
  · rfl
  · rfl

/-- What an input brings about, told by the grant that is in force before it. -/
inductive Answers (lock : PathLock) : LockInput → PathLock × LockOutcome → Prop
  | acquired (free : lock.grant? = none) (holder : SessionId) (fence : Nat) :
      Answers lock (.acquire holder fence)
        (⟨lock.path, .held holder fence⟩, .acquired ⟨lock.path, holder, fence⟩)
  | denied {t : LockToken} (held : lock.grant? = some t) (holder : SessionId) (fence : Nat) :
      Answers lock (.acquire holder fence) (lock, .denied t.holder)
  | released {t : LockToken} (held : lock.grant? = some t) :
      Answers lock (.release t) (new lock.path, .released t.holder)
  | closed {t : LockToken} (held : lock.grant? = some t) :
      Answers lock (.sessionClosed t.holder) (new lock.path, .released t.holder)
  | stale {t : LockToken} (other : lock.grant? ≠ some t) :
      Answers lock (.release t) (lock, .ignored)
  | bystander {session : SessionId} (other : ∀ t, lock.grant? = some t → t.holder ≠ session) :
      Answers lock (.sessionClosed session) (lock, .ignored)

theorem transition_answers (lock : PathLock) (input : LockInput) :
    lock.Answers input (lock.transition input) := by
  rcases lock with ⟨path, _ | ⟨current, fence⟩⟩
  · cases input with
    | acquire holder next => exact .acquired rfl holder next
    | release t => exact .stale nofun
    | sessionClosed session => exact .bystander nofun
  · cases input with
    | acquire holder next => exact .denied (t := ⟨path, current, fence⟩) rfl holder next
    | release t =>
        by_cases ht : t = ⟨path, current, fence⟩
        · subst ht
          simp only [transition, if_true]
          exact .released rfl
        · simp only [transition, if_neg ht]
          exact .stale fun heq => ht (Option.some.inj heq).symm
    | sessionClosed session =>
        by_cases hsession : session = current
        · subst hsession
          simp only [transition, if_true]
          exact .closed (t := ⟨path, session, fence⟩) rfl
        · simp only [transition, if_neg hsession]
          refine .bystander fun t ht heq => hsession ?_
          cases ht
          exact heq.symm

/-- The grant in force after an input is the one that the input has brought about, or the one
before if the outcome is not effective. -/
theorem grant?_transition (lock : PathLock) (input : LockInput) (t : LockToken) :
    (lock.transition input).1.grant? = some t ↔
      (lock.transition input).2 = .acquired t ∨
        (lock.transition input).2.isEffective = false ∧ lock.grant? = some t := by
  have h := lock.transition_answers input
  generalize lock.transition input = result at h
  cases h with
  | acquired free holder fence => simp [grant?, LockOutcome.isEffective]
  | denied held holder fence => simp [LockOutcome.isEffective]
  | released held => simp [new, grant?, LockOutcome.isEffective]
  | closed held => simp [new, grant?, LockOutcome.isEffective]
  | stale other => simp [LockOutcome.isEffective]
  | bystander other => simp [LockOutcome.isEffective]

/-- An outcome that is not effective leaves the lock as it was. -/
theorem transition_unchanged {input : LockInput}
    (h : (lock.transition input).2.isEffective = false) : (lock.transition input).1 = lock := by
  have hanswers := lock.transition_answers input
  generalize lock.transition input = result at h hanswers
  cases hanswers with
  | acquired free holder fence => cases h
  | denied held holder fence => rfl
  | released held => cases h
  | closed held => cases h
  | stale other => rfl
  | bystander other => rfl

/-- The outcome of an input follows from the grant in force. -/
theorem transition_follows (lock : PathLock) (input : LockInput) :
    Follows lock.path (lock.grant? = some ·) ⟨input, (lock.transition input).2⟩ := by
  have h := lock.transition_answers input
  generalize lock.transition input = result at h
  cases h with
  | acquired free holder fence =>
      refine ⟨fun t => ?_, by simp [free], by simp [free]⟩
      rcases t with ⟨path, holder', fence'⟩
      simp [free, eq_comm, and_comm]
  | denied held holder fence => constructor <;> simp [held]
  | released held => constructor <;> simp [held]
  | closed held => constructor <;> simp [held]
  | stale other =>
      refine ⟨by simp, by simp, fun holder => iff_of_false nofun ?_⟩
      rintro ⟨u, hu, -, hinput | hinput⟩
      · cases hinput
        exact other hu
      · cases hinput
  | bystander other =>
      refine ⟨by simp, by simp, fun holder => iff_of_false nofun ?_⟩
      rintro ⟨u, hu, hholder, hinput | hinput⟩
      · cases hinput
      · cases hinput
        exact other u hu hholder

/-! ## Histories -/

/-- The grant in force after a list of inputs is the outstanding one. -/
theorem grant?_after (path : String) (inputs : List LockInput) (t : LockToken) :
    ((new path).after inputs).grant? = some t ↔ Outstanding ((new path).events inputs) t := by
  -- the induction is from the end, since the last event decides what is outstanding
  induction inputs using List.reverseRecOn with
  | nil => exact iff_of_false nofun (outstanding_nil t)
  | append_singleton inputs input ih =>
      rw [after_append, events_append]
      change (((new path).after inputs).transition input).1.grant? = some t ↔
        Outstanding (_ ++ [⟨input, (((new path).after inputs).transition input).2⟩]) t
      rw [grant?_transition, outstanding_concat, ih]
      rfl

/-- Effective events take turns, beginning with a release if a grant is in force. -/
theorem turn_of_effective {inputs : List LockInput} {i : Nat} {e : LockEvent}
    (h : ((lock.events inputs).filter (·.isEffective))[i]? = some e) :
    (i + lock.grant?.toList.length) % 2 = 0 ∧ (∃ t, e.outcome = .acquired t) ∨
      (i + lock.grant?.toList.length) % 2 = 1 ∧ ∃ holder, e.outcome = .released holder := by
  induction inputs generalizing lock i with
  | nil => cases h
  | cons input rest ih =>
      have hanswers := lock.transition_answers input
      simp only [events] at h
      generalize lock.transition input = result at h hanswers
      cases hanswers with
      | acquired free holder fence =>
          rw [List.filter_cons_of_pos rfl] at h
          rw [free]
          cases i with
          | zero =>
              cases h
              exact .inl ⟨rfl, _, rfl⟩
          | succ i => exact ih h
      | released held | closed held =>
          rw [List.filter_cons_of_pos rfl] at h
          rw [held]
          cases i with
          | zero =>
              cases h
              exact .inr ⟨rfl, _, rfl⟩
          | succ i =>
              have htwo (n : Nat) : (n + 1 + 1) % 2 = n % 2 := Nat.add_mod_right n 2
              simpa [htwo, new, grant?] using ih h
      -- all other outcomes are passed over, and leave the lock as it was
      | denied held holder fence => exact ih h
      | stale other => exact ih h
      | bystander other => exact ih h

/-- A lock is held by the outstanding grant, and free if there is none. -/
theorem after_cases (path : String) (inputs : List LockInput) :
    (∃ t, Outstanding ((new path).events inputs) t ∧
        (new path).after inputs = ⟨path, .held t.holder t.fence⟩) ∨
      (∀ t, ¬ Outstanding ((new path).events inputs) t) ∧ (new path).after inputs = new path := by
  have hlock := ((new path).after inputs).eq_of_grant
  rw [after_path] at hlock
  cases hgrant : ((new path).after inputs).grant? with
  | some t =>
      left
      rw [hgrant] at hlock
      exact ⟨t, (grant?_after path inputs t).1 hgrant, hlock⟩
  | none =>
      right
      rw [hgrant] at hlock
      refine ⟨fun t ht => ?_, hlock⟩
      rw [← grant?_after, hgrant] at ht
      cases ht

end PathLock

/-- The history of a lock.  Whatever inputs a new lock is given, there is an outcome for each.
Acquisitions and releases take turns, beginning with an acquisition.  Each event follows from the
outstanding grant, which is that of the last acquisition without a later release: a token is granted
as the input asks for it, a release is brought about by the token of this grant or the end of its
session and names its session, and exactly the acquires in between are denied, naming this session
as well.  All other outcomes leave the lock as it was.  In the end the lock is held by the
outstanding grant, or free if there is none. -/
theorem lock_history (path : String) (inputs : List LockInput) :
    let start := PathLock.new path
    let events := start.events inputs
    events.map (·.input) = inputs ∧ Alternates events ∧
      (∀ before e later, events = before ++ e :: later →
        e.Follows path (Outstanding before) ∧
          (e.isEffective = false →
            start.after ((before ++ [e]).map (·.input)) = start.after (before.map (·.input)))) ∧
      ((∃ t, Outstanding events t ∧ start.after inputs = ⟨path, .held t.holder t.fence⟩) ∨
        (∀ t, ¬ Outstanding events t) ∧ start.after inputs = start) := by
  intro start events
  refine ⟨start.map_input_events inputs, fun i e h => ?_, fun before e later h => ?_,
    PathLock.after_cases path inputs⟩
  · exact PathLock.turn_of_effective h
  · rcases PathLock.exists_inputs_of_events h with ⟨first, rest, -, rfl, houtcome⟩
    constructor
    · have hfollows := (start.after first).transition_follows e.input
      have hinForce : ((start.after first).grant? = some ·) = Outstanding (start.events first) :=
        funext fun t => propext (PathLock.grant?_after path first t)
      rw [hinForce, PathLock.after_path, ← houtcome] at hfollows
      exact hfollows
    · intro hquiet
      unfold LockEvent.isEffective at hquiet
      rw [houtcome] at hquiet
      rw [List.map_append, PathLock.map_input_events, PathLock.after_append]
      exact PathLock.transition_unchanged hquiet

/-- A session takes a lock, asks for it again, comes with a token of another path, gives the lock
back, and comes with its old token when another session holds the lock under the same fence. -/
def overtaking : List LockInput :=
  [.acquire ⟨1⟩ 7, .acquire ⟨1⟩ 8, .release ⟨"/other", ⟨1⟩, 7⟩, .release ⟨"/node", ⟨1⟩, 7⟩,
    .acquire ⟨2⟩ 7, .release ⟨"/node", ⟨1⟩, 7⟩]

/-- The token that was good for a release is ignored later, and the lock is as it was. -/
theorem lock_history_overtaking :
    let start := PathLock.new "/node"
    let before := start.events (overtaking.take 5)
    let last : LockEvent := ⟨.release ⟨"/node", ⟨1⟩, 7⟩, .ignored⟩
    start.events overtaking = before ++ [last] ∧ last.isEffective = false ∧
      last.Follows "/node" (Outstanding before) ∧
      start.after ((before ++ [last]).map (·.input)) = start.after (before.map (·.input)) := by
  intro start before last
  have hsplit : start.events overtaking = before ++ [last] := by decide
  have hquiet : last.isEffective = false := rfl
  have hevent := (lock_history "/node" overtaking).2.2.1 before last [] hsplit
  exact ⟨hsplit, hquiet, hevent.1, hevent.2 hquiet⟩

end FencedPool
