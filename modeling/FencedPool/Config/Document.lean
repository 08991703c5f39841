import FencedPool.Config
import FencedPool.Duration.Text
import FencedPool.Text.Utf8
import FencedPool.Toml.Reader

/-!
# Document — settings as TOML

A document names the settings that differ from the defaults.  Its top-level keys are looked at in
the order in which they stand, and the first that is unknown or has a value of the wrong type is the
fault.  All settings are written, in their order, but for absent credentials.

This file defines `Config.decode` and `Config.encode`, and `Config.load` for the content of a file.
-/

namespace FencedPool

open Toml

namespace Config

def names : List String :=
  ["connection", "namespace", "request_root", "request_lock_root", "node_root", "priority",
    "credentials_id", "session_timeout"]

/-! ## Reading -/

def asText : Value → Except Mismatch String
  | .text s => .ok s
  | v => .error (.wrongType v.found "a string")

def asPriority : Value → Except Mismatch UInt32
  | .integer i =>
      if 0 ≤ i ∧ i < Power.two 32 then .ok i.toNat.toUInt32
      else .error (.wrongValue (.integer i) "u32")
  | v => .error (.wrongType v.found "u32")

def asDuration : Value → Except Mismatch Duration
  | .text s =>
      match Duration.read? s with
      | some d => .ok d
      | none => .error (.wrongValue (.text s) "a duration")
  | v => .error (.wrongType v.found "a duration")

def take (c : Config) (entry : String × Value) : Except Mismatch Config :=
  let (key, v) := entry
  match key with
  | "connection" => (asText v).map fun s => { c with connection := s }
  | "namespace" => (asText v).map c.withBasePath
  | "request_root" => (asText v).map fun s => { c with requestRoot := s }
  | "request_lock_root" => (asText v).map fun s => { c with requestLockRoot := s }
  | "node_root" => (asText v).map fun s => { c with nodeRoot := s }
  | "priority" => (asPriority v).map c.withPriority
  | "credentials_id" => (asText v).map c.withCredentialsId
  | "session_timeout" => (asDuration v).map c.withSessionTimeout
  | _ => .error (.unknownField key names)

/-- The settings of a document over given ones, or the first mismatch. -/
def takeAll : Config → Body → Except Mismatch Config
  | c, [] => .ok c
  | c, entry :: rest =>
      match c.take entry with
      | .error e => .error e
      | .ok c' => takeAll c' rest

def decode (text : String) : Except ConfigError Config :=
  match parse text with
  | none => .error (.malformed none)
  | some entries =>
      match takeAll {} entries with
      | .error e => .error (.malformed (some e))
      | .ok c =>
          match c.fault? with
          | some fault => .error (.invalid fault)
          | none => .ok c

def notText : String := "stream did not contain valid UTF-8"

/-- The settings of a file, from its content or the reason why that cannot be had. -/
def load (file : String) (content : Except String Bytes) : Except ConfigError Config :=
  match content with
  | .error reason => .error (.unreadable file reason)
  | .ok data =>
      match Utf8.decode? data with
      | none => .error (.unreadable file notText)
      | some text => decode text

/-! ## Writing -/

def line (key : String) (value : List Char) : List Char :=
  key.toList ++ ' ' :: '=' :: ' ' :: value ++ ['\n']

def textLine (key value : String) : List Char := line key (Text.render value)

def encode (c : Config) : String :=
  String.ofList <|
    textLine "connection" c.connection ++ textLine "namespace" c.basePath
      ++ textLine "request_root" c.requestRoot
      ++ textLine "request_lock_root" c.requestLockRoot ++ textLine "node_root" c.nodeRoot
      ++ line "priority" (Nat.toDigits 10 c.priority.toNat)
      ++ (match c.credentialsId with
        | some id => textLine "credentials_id" id
        | none => [])
      ++ textLine "session_timeout" c.sessionTimeout.text

end Config

end FencedPool
