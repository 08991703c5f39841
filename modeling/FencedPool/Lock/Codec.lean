import FencedPool.Json.Field
import FencedPool.Lock

/-!
# Codec — lock tokens as JSON

A token is written as an object of its three fields.  It is read from such an object, where other
members are passed over, or from an array of the three values.

This file defines `LockToken.encode` and `LockToken.decode`.
-/

namespace FencedPool

namespace LockToken

open Json

structure Draft where
  path : Option String := none
  holder : Option Nat := none
  fence : Option Nat := none

def member (d : Draft) (key : String) : Reader Draft := fun s =>
  match key with
  | "path" => (Field.once key d.path Field.text s).map fun r => ({ d with path := r.1 }, r.2)
  | "holder" =>
      (Field.once key d.holder Field.natural s).map fun r => ({ d with holder := r.1 }, r.2)
  | "fence" => (Field.once key d.fence Field.natural s).map fun r => ({ d with fence := r.1 }, r.2)
  | _ => Field.skip d s

def fromObject : Reader LockToken := fun s => do
  let (d, rest) ← members member {} s
  let path ← Field.required "path" d.path
  let holder ← Field.required "holder" d.holder
  let fence ← Field.required "fence" d.fence
  .ok (⟨path, ⟨holder⟩, fence⟩, rest)

/-- What a short array is compared with. -/
def shape : String := "struct LockToken with 3 elements"

def fromArray : Reader LockToken := fun s => do
  let (path, s) ← Field.item 0 shape Field.text s
  let (holder, s) ← Field.item 1 shape Field.natural s
  let (fence, s) ← Field.item 2 shape Field.natural s
  .ok (⟨path, ⟨holder⟩, fence⟩, s)

def decode (data : Bytes) : Except Fault LockToken :=
  (Field.record "struct LockToken" fromObject fromArray (Utf8.symbols data)).bind finish

def toJson (t : LockToken) : Json :=
  .obj [("path", .str t.path), ("holder", .num (.integer t.holder.number)),
    ("fence", .num (.integer t.fence))]

def encode (t : LockToken) : String := t.toJson.text

end LockToken

end FencedPool
