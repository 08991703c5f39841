import FencedPool.Procedure

/-!
# Traced — sessions that tell what they do

A traced session passes every call on and tells how it went.  The calls that change entries or locks
have a span around them.

This file defines `Session.traced` and its events.
-/

namespace FencedPool

namespace Event

def creating (data : Bytes) : Event :=
  ⟨.debug, "creating", [("payload_len", Text.decimal data.length)]⟩

def afterCreate : Except StoreError String → Event
  | .ok path => ⟨.info, "created", [("path", path)]⟩
  | .error e => ⟨.error, "create failed", [("error", e.message)]⟩

def afterRead (path : String) : Except StoreError Bytes → Event
  | .ok data => ⟨.trace, "read", [("path", path), ("len", Text.decimal data.length)]⟩
  | .error e => ⟨.debug, "read failed", [("path", path), ("error", e.message)]⟩

def afterCheck (path : String) (answer : Except StoreError Bool) : Event :=
  ⟨.trace, "checked", [("path", path), ("exists", .presence answer.toOption)]⟩

/-- How a deletion went.  An entry that is already absent is routine during cleanup. -/
def afterDelete : Except StoreError Unit → Event
  | .ok () => ⟨.info, "deleted", []⟩
  | .error (.noNode _) => ⟨.debug, "already absent", []⟩
  | .error e => ⟨.warn, "delete failed", [("error", e.message)]⟩

def afterAcquire : Except StoreError LockToken → Event
  | .ok token => ⟨.info, "lock acquired", [("fence", Text.decimal token.fence)]⟩
  | .error (.lockHeld _ holder) => ⟨.warn, "lock held elsewhere", [("holder", holder.display)]⟩
  | .error e => ⟨.error, "lock failed", [("error", e.message)]⟩

def afterRelease : Except StoreError Unit → Event
  | .ok () => ⟨.info, "lock released", []⟩
  | .error e => ⟨.warn, "release failed", [("error", e.message)]⟩

def afterWatch (path : String) : Except StoreError WatchId → Event
  | .ok _ => ⟨.debug, "watch registered", [("path", path)]⟩
  | .error e => ⟨.warn, "watch failed", [("path", path), ("error", e.message)]⟩

end Event

namespace Session

def span? (id : SessionId) : Call → Option Span
  | .create stem _ => some ⟨"store.create", [("prefix", stem), ("session", id.display)]⟩
  | .delete path => some ⟨"store.delete", [("path", path)]⟩
  | .acquire path => some ⟨"store.lock", [("path", path), ("session", id.display)]⟩
  | .release token =>
      some ⟨"store.unlock", [("path", token.path), ("fence", Text.decimal token.fence)]⟩
  | _ => none

def before : Call → Journal
  | .create _ data => .ofEvents [.creating data]
  | _ => []

def after : (c : Call) → Except StoreError c.Answer → Event
  | .create _ _, r => .afterCreate r
  | .read path, r => .afterRead path r
  | .isPresent path, r => .afterCheck path r
  | .delete _, r => .afterDelete r
  | .acquire _, r => .afterAcquire r
  | .release _, r => .afterRelease r
  | .watch path, r => .afterWatch path r

/-- Passes calls on to a session and tells how they went. -/
def traced {σ : Type} (inner : Session σ) : Session σ where
  id := inner.id
  perform c s :=
    let reply := inner.perform c s
    let told := before c ++ reply.journal ++ .ofEvents [after c reply.answer]
    { reply with
      journal :=
        match span? inner.id c with
        | some span => told.within span
        | none => told }

end Session

end FencedPool
