import FencedPool.Json.Field
import FencedPool.Node
import FencedPool.Request

/-!
# Codec — node metadata as stored records

Metadata are stored as an object: the known fields that are present, in their order, then the
attributes in key order.  They are read from any JSON object whose known fields have their types; a
known field that is `null` counts as absent, and every other member is an attribute.

This file defines `NodeMetadata.encode` and `NodeMetadata.decode`, and `decodeObject`, which reads
an object without a schema.
-/

namespace FencedPool

open Json

def decodeObject (path : String) (data : Bytes) :
    Except MalformedRecord (List (String × Json)) :=
  match Json.parse data with
  | .error e => .error ⟨path, e.message⟩
  | .ok (.obj members) => .ok members
  | .ok _ => .error ⟨path, "payload is not a JSON object"⟩

namespace NodeMetadata

def optionalText : Json → Except Mismatch (Option String)
  | .null => .ok none
  | .str s => .ok (some s)
  | v => .error (.wrongType v.found "a string")

def optionalPort : Json → Except Mismatch (Option UInt16)
  | .null => .ok none
  | .num n => (Field.bounded "u16" (Power.two 16) n).map fun p => some p.toUInt16
  | v => .error (.wrongType v.found "u16")

def take (m : NodeMetadata) (key : String) (v : Json) : Except Mismatch NodeMetadata :=
  match key with
  | "label" => (optionalText v).map fun t => { m with label := t }
  | "state" => (optionalText v).map fun t => { m with state := t }
  | "interface_ip" => (optionalText v).map fun t => { m with interfaceIp := t }
  | "connection_port" => (optionalPort v).map fun p => { m with connectionPort := p }
  | _ => .ok (m.withAttribute key v)

/-- The metadata of an object, or the first mismatch among its members. -/
def ofMembers : NodeMetadata → List (String × Json) → Except Mismatch NodeMetadata
  | m, [] => .ok m
  | m, (key, v) :: rest =>
      match m.take key v with
      | .error e => .error e
      | .ok m' => ofMembers m' rest

def decode (path : String) (data : Bytes) : Except MalformedRecord NodeMetadata :=
  match decodeObject path data with
  | .error e => .error e
  | .ok members =>
      match ofMembers {} members with
      | .ok m => .ok m
      | .error e => .error ⟨path, e.message⟩

def toJson (m : NodeMetadata) : Json :=
  .obj (member? "label" m.label .str ++ member? "state" m.state .str
    ++ member? "interface_ip" m.interfaceIp .str
    ++ member? "connection_port" m.connectionPort (fun p => .num (.integer p.toNat))
    ++ m.attributes.toList)

def encode (m : NodeMetadata) : Bytes := Utf8.bytes m.toJson.text

end NodeMetadata

end FencedPool
