import FencedPool.Proofs.Procedure.Dialogue
import FencedPool.Session.Traced

/-!
# Wrappers — a session around another one does what the inner one does

A traced session tells of each call, and a recorded one keeps a list of the calls and refuses those
that it has been told to refuse.  Programs cannot see that they run on a wrapper, but for the
refusals, and neither can the state underneath.  A wrapper is used by many programs in turn, and
between them failures are put in force and lifted, and the state underneath changes for other
reasons.

Any session may stand inside, such as a plain one with whatever store, or a wrapper.

This file defines:

* `Session.refusing` — a session that refuses some calls and keeps no record;
* `SessionStep` and `Session.use` — how a session is used over time;
* `RecordingStep` — how a recorded session is used, and `RecordingStep.failureAfter?`, the failure
  that is in force then;
* `Session.RecordsFaithfully` — what is known of a recorded session after any use.

The main statement is `wrappers_transparent`.
-/

namespace FencedPool

variable {α σ : Type}

/-! ## One run -/

/-- Refuses some calls and passes the others on. -/
def Session.refusing (inner : Session σ) (refusal? : Call → Option StoreError) : Session σ where
  id := inner.id
  perform c s :=
    match refusal? c with
    | some e => { answer := .error e, state := s }
    | none => inner.perform c s

namespace Procedure

theorem run_traced (session : Session σ) (p : Procedure α) (s : σ) :
    (p.run session.traced s).answer = (p.run session s).answer ∧
      (p.run session.traced s).state = (p.run session s).state := by
  induction p generalizing s with
  | done a => exact ⟨rfl, rfl⟩
  | call c next ih => exact ih _ _
  | tell event next ih => exact ih s

theorem exchanges_traced (session : Session σ) (p : Procedure α) (s : σ) :
    p.exchanges session.traced s = p.exchanges session s := by
  induction p generalizing s with
  | done a => rfl
  | call c next ih => exact congrArg (_ :: ·) (ih _ _)
  | tell event next ih => exact ih s

/-- The calls of a run, without their answers. -/
def calls (session : Session σ) (p : Procedure α) (s : σ) : List Call :=
  (p.exchanges session s).map (·.call)

end Procedure

/-- What stands in the list of a recorder for a call. -/
def Call.listed (c : Call) : Operation × String := (c.operation, c.target)

theorem Session.recorded_refusing (inner : Session σ) (c : Call) (r : Recorder) (s : σ) :
    (inner.recorded.perform c (r, s)).answer =
        ((inner.refusing r.failure?).perform c s).answer ∧
      (inner.recorded.perform c (r, s)).state =
        (r.record c, ((inner.refusing r.failure?).perform c s).state) := by
  have hfailure : (r.record c).failure? c = r.failure? c := rfl
  simp only [recorded, refusing, hfailure]
  cases r.failure? c with
  | some e => exact ⟨rfl, rfl⟩
  | none => exact ⟨rfl, rfl⟩

namespace Procedure

/-- A run on a recorded session is one with the refusals, and its calls are added to the list. -/
theorem run_recorded (inner : Session σ) (p : Procedure α) (r : Recorder) (s : σ) :
    (p.run inner.recorded (r, s)).answer = (p.run (inner.refusing r.failure?) s).answer ∧
      (p.run inner.recorded (r, s)).state =
        ({ r with calls := r.calls ++ (p.calls inner.recorded (r, s)).map Call.listed },
          (p.run (inner.refusing r.failure?) s).state) := by
  induction p generalizing r s with
  | done a => exact ⟨rfl, by simp [run, calls, exchanges]⟩
  | call c next ih =>
      rcases inner.recorded_refusing c r s with ⟨hanswer, hstate⟩
      rcases ih (inner.recorded.perform c (r, s)).answer (r.record c)
        ((inner.refusing r.failure?).perform c s).state with ⟨hrest, hafter⟩
      -- recording a call puts no failure in force
      change _ = ((next _).run (inner.refusing r.failure?) _).answer at hrest
      change _ = (_, ((next _).run (inner.refusing r.failure?) _).state) at hafter
      rw [← hstate] at hrest hafter
      simp only [run]
      refine ⟨?_, ?_⟩
      · rw [hrest, hanswer]
      · rw [hafter]
        simp only [calls, exchanges, hanswer, Recorder.record, List.map_cons, List.append_assoc,
          List.cons_append, List.nil_append, hstate]
        rfl
  | tell event next ih => exact ih r s

/-- Refusals make no difference to a program none of whose calls is refused. -/
theorem run_refusing_of_passed {inner : Session σ} {refusal? : Call → Option StoreError}
    (p : Procedure α) (s : σ) (h : ∀ c ∈ p.calls inner s, refusal? c = none) :
    p.run (inner.refusing refusal?) s = p.run inner s := by
  induction p generalizing s with
  | done a => rfl
  | call c next ih =>
      have hpassed : (inner.refusing refusal?).perform c s = inner.perform c s := by
        simp only [Session.refusing, h c List.mem_cons_self]
      have hrest := ih (inner.perform c s).answer (inner.perform c s).state fun d hd =>
        h d (List.mem_cons_of_mem _ hd)
      simp only [run, hpassed, hrest]
  | tell event next ih => simp only [run, ih s h]

end Procedure

/-! ## Use over time -/

/-- A program runs on a session, or the state underneath changes between programs. -/
inductive SessionStep (σ : Type) : Type 1
  | run {α : Type} (p : Procedure α)
  | change (f : σ → σ)

namespace Session

/-- The results of the programs in turn, and the state that is left. -/
def use (session : Session σ) : List (SessionStep σ) → σ → List (Σ α : Type, α) × σ
  | [], s => ([], s)
  | .run p :: rest, s =>
      let reply := p.run session s
      let more := session.use rest reply.state
      (⟨_, reply.answer⟩ :: more.1, more.2)
  | .change f :: rest, s => session.use rest (f s)

/-- The calls that the programs make, in turn. -/
def callsAlong (session : Session σ) : List (SessionStep σ) → σ → List Call
  | [], _ => []
  | .run p :: rest, s => p.calls session s ++ session.callsAlong rest (p.run session s).state
  | .change f :: rest, s => session.callsAlong rest (f s)

theorem use_traced (session : Session σ) (steps : List (SessionStep σ)) (s : σ) :
    session.traced.use steps s = session.use steps s := by
  induction steps generalizing s with
  | nil => rfl
  | cons step rest ih =>
      cases step with
      | run p =>
          rcases p.run_traced session s with ⟨hanswer, hstate⟩
          simp only [use, hanswer, hstate, ih]
      | change f => exact ih (f s)

theorem callsAlong_traced (session : Session σ) (steps : List (SessionStep σ)) (s : σ) :
    session.traced.callsAlong steps s = session.callsAlong steps s := by
  induction steps generalizing s with
  | nil => rfl
  | cons step rest ih =>
      cases step with
      | run p =>
          simp only [callsAlong, Procedure.calls, p.exchanges_traced,
            (p.run_traced session s).2, ih]
      | change f => exact ih (f s)

end Session

/-- A program runs on a recorded session, a failure is put in force, all failures are lifted, or the
state underneath changes. -/
inductive RecordingStep (σ : Type) : Type 1
  | run {α : Type} (p : Procedure α)
  | fail (operation : Operation) (path : String) (error : StoreError)
  | clearFailures
  | change (f : σ → σ)

namespace RecordingStep

def toSessionStep : RecordingStep σ → SessionStep (Recorder × σ)
  | .run p => .run p
  | .fail operation path e => .change fun s => (s.1.fail operation path e, s.2)
  | .clearFailures => .change fun s => (s.1.clearFailures, s.2)
  | .change f => .change fun s => (s.1, f s.2)

/-- The failure in force for an operation on a path, given the one before a step. -/
def force (operation : Operation) (path : String) (current : Option StoreError) :
    RecordingStep σ → Option StoreError
  | .fail operation' path' e =>
      if operation' = operation ∧ path' = path then some e else current
  | .clearFailures => none
  | _ => current

/-- The failure in force after steps: the last one that was injected for the operation and the path,
unless all failures have been lifted since. -/
def failureAfter? (steps : List (RecordingStep σ)) (operation : Operation) (path : String) :
    Option StoreError :=
  steps.foldl (force operation path) none

end RecordingStep

namespace Session

open RecordingStep

/-- The recorder and the inner state after a new recorded session has been used. -/
def reached (wrapper : Session (Recorder × σ)) (s : σ) (steps : List (RecordingStep σ)) :
    Recorder × σ :=
  (wrapper.use (steps.map toSessionStep) ({}, s)).2

/-- The calls that were made while a new recorded session was used. -/
def made (wrapper : Session (Recorder × σ)) (s : σ) (steps : List (RecordingStep σ)) : List Call :=
  wrapper.callsAlong (steps.map toSessionStep) ({}, s)

/-- What is known of a recorded session after use.  All calls have been recorded, and what comes
next is what the inner session makes of it, except that calls with a failure in force get this
failure and do not reach the inner session. -/
structure RecordsFaithfully (wrapper : Session (Recorder × σ)) (inner : Session σ) (s : σ)
    (steps : List (RecordingStep σ)) : Prop where
  calls : (wrapper.reached s steps).1.calls = (wrapper.made s steps).map Call.listed
  lockAttempts : (wrapper.reached s steps).1.lockAttempts =
    ((wrapper.made s steps).filter (·.operation = .acquire)).map Call.target
  lockReleases : (wrapper.reached s steps).1.lockReleases =
    ((wrapper.made s steps).filter (·.operation = .release)).map Call.target
  refused : ∀ c e, failureAfter? steps c.operation c.target = some e →
    let reply := wrapper.perform c (wrapper.reached s steps)
    reply.answer = .error e ∧ reply.state.2 = (wrapper.reached s steps).2
  passed : ∀ c, failureAfter? steps c.operation c.target = none →
    let reply := wrapper.perform c (wrapper.reached s steps)
    let bare := inner.perform c (wrapper.reached s steps).2
    reply.answer = bare.answer ∧ reply.state.2 = bare.state
  /-- a program may meet failures anywhere in its run -/
  programs : ∀ {α : Type} (p : Procedure α),
    let reply := p.run wrapper (wrapper.reached s steps)
    let bare := p.run (inner.refusing fun c => failureAfter? steps c.operation c.target)
      (wrapper.reached s steps).2
    reply.answer = bare.answer ∧ reply.state.2 = bare.state
  undisturbed : ∀ {α : Type} (p : Procedure α),
    (∀ c ∈ p.calls inner (wrapper.reached s steps).2,
      failureAfter? steps c.operation c.target = none) →
    let reply := p.run wrapper (wrapper.reached s steps)
    let bare := p.run inner (wrapper.reached s steps).2
    reply.answer = bare.answer ∧ reply.state.2 = bare.state

end Session

namespace Recorder

/-- Each step moves the failures of a recorder as it should, and each call is listed. -/
theorem use_recorded (inner : Session σ) (steps : List (RecordingStep σ)) (r : Recorder) (s : σ) :
    let after := (inner.recorded.use (steps.map RecordingStep.toSessionStep) (r, s)).2.1
    after.calls = r.calls ++ (inner.recorded.callsAlong
        (steps.map RecordingStep.toSessionStep) (r, s)).map Call.listed ∧
      ∀ operation path, after.failures.lookup (operation, path) =
        steps.foldl (RecordingStep.force operation path) (r.failures.lookup (operation, path)) := by
  induction steps generalizing r s with
  | nil => exact ⟨(List.append_nil _).symm, fun _ _ => rfl⟩
  | cons step rest ih =>
      cases step with
      | run p =>
          have hstate := (p.run_recorded inner r s).2
          simp only [List.map_cons, RecordingStep.toSessionStep, Session.use, Session.callsAlong,
            hstate, List.map_append, ← List.append_assoc]
          exact ih _ _
      | fail operation path e =>
          rcases ih (r.fail operation path e) s with ⟨hcalls, hfailures⟩
          refine ⟨hcalls, fun operation' path' => (hfailures operation' path').trans ?_⟩
          rw [List.foldl_cons]
          congr 1
          simp only [fail, List.lookup_cons, RecordingStep.force]
          by_cases hpair : operation = operation' ∧ path = path'
          · obtain ⟨rfl, rfl⟩ := hpair
            simp
          · rw [if_neg hpair]
            have hne : ((operation', path') == (operation, path)) = false := by
              rw [beq_eq_false_iff_ne]
              rintro ⟨⟩
              exact hpair ⟨rfl, rfl⟩
            rw [hne]
      | clearFailures => exact ih r.clearFailures s
      | change f => exact ih r (f s)

theorem pathsOf_of_calls {r : Recorder} {made : List Call}
    (h : r.calls = made.map Call.listed) (operation : Operation) :
    r.pathsOf operation = (made.filter (·.operation = operation)).map Call.target := by
  unfold pathsOf
  rw [h, List.filter_map, List.map_map]
  rfl

end Recorder

namespace Session

variable (inner : Session σ) (s : σ) (steps : List (RecordingStep σ))

/-- The failures of the recorder are those in force. -/
theorem failure?_reached (c : Call) :
    (inner.recorded.reached s steps).1.failure? c =
      RecordingStep.failureAfter? steps c.operation c.target :=
  (Recorder.use_recorded inner steps {} s).2 c.operation c.target

theorem recorded_recordsFaithfully : inner.recorded.RecordsFaithfully inner s steps := by
  have hcalls : (inner.recorded.reached s steps).1.calls =
      (inner.recorded.made s steps).map Call.listed :=
    (Recorder.use_recorded inner steps {} s).1
  have hfailures : (inner.recorded.reached s steps).1.failure? =
      fun c => RecordingStep.failureAfter? steps c.operation c.target :=
    funext (failure?_reached inner s steps)
  have hprograms {α : Type} (p : Procedure α) :
      (p.run inner.recorded (inner.recorded.reached s steps)).answer =
          (p.run (inner.refusing fun c => RecordingStep.failureAfter? steps c.operation c.target)
            (inner.recorded.reached s steps).2).answer ∧
        (p.run inner.recorded (inner.recorded.reached s steps)).state.2 =
          (p.run (inner.refusing fun c => RecordingStep.failureAfter? steps c.operation c.target)
            (inner.recorded.reached s steps).2).state := by
    rcases p.run_recorded inner (inner.recorded.reached s steps).1
      (inner.recorded.reached s steps).2 with ⟨hanswer, hstate⟩
    rw [hfailures] at hanswer hstate
    exact ⟨hanswer, congrArg Prod.snd hstate⟩
  constructor
  · exact hcalls
  · exact Recorder.pathsOf_of_calls hcalls .acquire
  · exact Recorder.pathsOf_of_calls hcalls .release
  · intro c e hfailure
    have hcall := hprograms (Procedure.ask c)
    simp only [Procedure.ask, Procedure.run, refusing, hfailure] at hcall
    exact hcall
  · intro c hfailure
    have hcall := hprograms (Procedure.ask c)
    simp only [Procedure.ask, Procedure.run, refusing, hfailure] at hcall
    exact hcall
  · exact hprograms
  · intro α p hpassed
    rw [← p.run_refusing_of_passed _ hpassed]
    exact hprograms p

/-- Tracing changes nothing about a recorded session. -/
theorem RecordsFaithfully.traced {wrapper : Session (Recorder × σ)}
    (h : wrapper.RecordsFaithfully inner s steps) :
    wrapper.traced.RecordsFaithfully inner s steps := by
  have hreached : wrapper.traced.reached s steps = wrapper.reached s steps :=
    congrArg Prod.snd (wrapper.use_traced _ _)
  have hmade : wrapper.traced.made s steps = wrapper.made s steps :=
    wrapper.callsAlong_traced _ _
  constructor
  · rw [hreached, hmade]
    exact h.calls
  · rw [hreached, hmade]
    exact h.lockAttempts
  · rw [hreached, hmade]
    exact h.lockReleases
  · rw [hreached]
    exact h.refused
  · rw [hreached]
    exact h.passed
  · intro α p
    dsimp only
    rw [hreached, (p.run_traced wrapper _).1, (p.run_traced wrapper _).2]
    exact h.programs p
  · intro α p
    dsimp only
    rw [hreached, (p.run_traced wrapper _).1, (p.run_traced wrapper _).2]
    exact h.undisturbed p

end Session

/-- Whatever session stands inside and whatever is done with it: traced, it gives the same results
and leaves the same state; recorded, it does so but for the failures in force, and the record is
that of all calls; and tracing a recorded session changes nothing about that. -/
theorem wrappers_transparent (inner : Session σ) (s : σ) :
    (inner.traced.id = inner.id ∧ ∀ steps, inner.traced.use steps s = inner.use steps s) ∧
      (inner.recorded.id = inner.id ∧
        ∀ steps, inner.recorded.RecordsFaithfully inner s steps) ∧
      inner.recorded.traced.id = inner.id ∧
        ∀ steps, inner.recorded.traced.RecordsFaithfully inner s steps :=
  ⟨⟨rfl, fun steps => inner.use_traced steps s⟩,
    ⟨rfl, inner.recorded_recordsFaithfully s⟩,
    rfl, fun steps => (inner.recorded_recordsFaithfully s steps).traced⟩

end FencedPool
