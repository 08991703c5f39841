import FencedPool.Text.Padded

/-!
# Lock — exclusive access to a store path

A lock is held by a session, never by two, and is not reentrant: a second acquire is denied even
when it comes from the holder.  Each grant has a fence, a number that grows with every grant in the
store, and the token of a grant names its path, holder and fence.  Only the very token of the
current grant releases the lock, so a token that has been overtaken is worthless.

This file defines:

* `SessionId` and `LockToken`;
* `PathLock`, its inputs and outcomes, and `PathLock.transition`.
-/

namespace FencedPool

structure SessionId where
  number : Nat
  deriving DecidableEq, Repr, Inhabited

instance : Ord SessionId := ⟨fun a b => compare a.number b.number⟩

instance : Std.TransOrd SessionId where
  eq_swap {a b} := Std.OrientedOrd.eq_swap (a := a.number) (b := b.number)
  isLE_trans {a b c} := Std.TransOrd.isLE_trans (a := a.number) (b := b.number) (c := c.number)

instance : Std.LawfulEqOrd SessionId where
  compare_self {a} := Std.ReflOrd.compare_self (a := a.number)
  eq_of_compare {a b} h :=
    congrArg SessionId.mk (Std.LawfulEqOrd.eq_of_compare (a := a.number) (b := b.number) h)

/-- The hexadecimal form of an identity, at least sixteen digits. -/
def SessionId.display (id : SessionId) : String := "0x" ++ Text.padded 16 16 id.number

/-- The proof of one grant of a lock. -/
structure LockToken where
  path : String
  holder : SessionId
  fence : Nat
  deriving DecidableEq, Repr, Inhabited

inductive LockState
  | free
  | held (holder : SessionId) (fence : Nat)
  deriving DecidableEq, Repr

structure PathLock where
  path : String
  state : LockState
  deriving DecidableEq, Repr

inductive LockInput
  | acquire (holder : SessionId) (fence : Nat)
  | release (token : LockToken)
  | sessionClosed (holder : SessionId)
  deriving DecidableEq, Repr

inductive LockOutcome
  | acquired (token : LockToken)
  | denied (current : SessionId)
  | released (holder : SessionId)
  | ignored
  deriving DecidableEq, Repr

namespace PathLock

def new (path : String) : PathLock := ⟨path, .free⟩

def holder? (lock : PathLock) : Option SessionId :=
  match lock.state with
  | .free => none
  | .held holder _ => some holder

def isFree (lock : PathLock) : Bool := lock.state == .free

def isHeldBy (lock : PathLock) (session : SessionId) : Bool := lock.holder? == some session

def grant? (lock : PathLock) : Option LockToken :=
  match lock.state with
  | .free => none
  | .held holder fence => some ⟨lock.path, holder, fence⟩

/-- The lock after an input, and what the input brought about. -/
def transition (lock : PathLock) : LockInput → PathLock × LockOutcome
  | .acquire holder fence =>
      match lock.state with
      | .free => ({ lock with state := .held holder fence }, .acquired ⟨lock.path, holder, fence⟩)
      | .held current _ => (lock, .denied current)
  | .release token =>
      match lock.state with
      | .free => (lock, .ignored)
      | .held holder fence =>
          if token = ⟨lock.path, holder, fence⟩ then
            ({ lock with state := .free }, .released holder)
          else (lock, .ignored)
  | .sessionClosed session =>
      match lock.state with
      | .free => (lock, .ignored)
      | .held holder _ =>
          if session = holder then ({ lock with state := .free }, .released holder)
          else (lock, .ignored)

@[simp] theorem transition_path (lock : PathLock) (input : LockInput) :
    (lock.transition input).1.path = lock.path := by
  cases input <;> simp only [transition] <;> split <;> (try split) <;> rfl

end PathLock

end FencedPool
