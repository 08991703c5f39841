import FencedPool.Config.Document
import FencedPool.Simulation

/-!
# Command — the command line

There are two commands: one runs a simulation and reports it, the other prints the settings in
force.  Options stand before or after the name of the command, and the file of settings may be named
in both places, where the later one counts.  An option that takes a value takes the next argument,
unless that starts with a dash, or what stands behind an equals sign.

This file defines:

* `Invocation` and `Invocation.parse` — what the arguments ask for;
* `Command.run` — what is printed, and the exit code.
-/

namespace FencedPool

inductive Format
  | text
  | json
  deriving DecidableEq, Repr

inductive Action
  | simulate (settings : SimulationSettings) (format : Format)
  | showConfig
  deriving DecidableEq, Repr

inductive Invocation
  | perform (file : Option String) (action : Action)
  | version
  | help
  | misuse
  deriving DecidableEq, Repr

inductive Switch
  | config
  | nodes
  | poolLabel
  | consumerLabel
  | contend
  | format
  | help
  | version
  deriving DecidableEq, Repr

namespace Switch

def name : Switch → String
  | .config => "config"
  | .nodes => "nodes"
  | .poolLabel => "pool-label"
  | .consumerLabel => "consumer-label"
  | .contend => "contend"
  | .format => "format"
  | .help => "help"
  | .version => "version"

def isFlag : Switch → Bool
  | .contend | .help | .version => true
  | _ => false

def letter? : Switch → Option Char
  | .help => some 'h'
  | .version => some 'V'
  | _ => none

end Switch

structure Options where
  config : Option String := none
  nodes : Option Nat := none
  poolLabel : Option String := none
  consumerLabel : Option String := none
  contend : Bool := false
  format : Option Format := none
  deriving DecidableEq, Repr

namespace Options

/-- Sets what was not set yet. -/
def once {α : Type} (current : Option α) (value : Option α) : Option (Option α) :=
  if current.isSome then none else value.map some

/-- A number of 64 bits in decimal digits, perhaps after a plus sign. -/
def count? (s : String) : Option Nat :=
  let digits := match s.toList with | '+' :: rest => rest | cs => cs
  if digits ≠ [] ∧ digits.all (fun c => '0' ≤ c ∧ c ≤ '9') then
    let n := digits.foldl (fun n c => n * 10 + (c.toNat - '0'.toNat)) 0
    if n < Power.two 64 then some n else none
  else none

def format? : String → Option Format
  | "text" => some .text
  | "json" => some .json
  | _ => none

/-- The options with a value for one of them, unless it has one or the value is of no use. -/
def set? (o : Options) (switch : Switch) (value : String) : Option Options :=
  match switch with
  | .config =>
      (once o.config (if value = "" then none else some value)).map ({ o with config := · })
  | .nodes => (once o.nodes (count? value)).map ({ o with nodes := · })
  | .poolLabel => (once o.poolLabel (some value)).map ({ o with poolLabel := · })
  | .consumerLabel => (once o.consumerLabel (some value)).map ({ o with consumerLabel := · })
  | .format => (once o.format (format? value)).map ({ o with format := · })
  | _ => none

/-- The options with a flag, unless they have it or the flag decides the outcome. -/
def raise (o : Options) : Switch → Except Invocation Options
  | .contend => if o.contend then .error .misuse else .ok { o with contend := true }
  | .help => .error .help
  | .version => .error .version
  | _ => .error .misuse

def settings (o : Options) : SimulationSettings :=
  let usual : SimulationSettings := {}
  { nodes := o.nodes.getD usual.nodes
    poolLabel := o.poolLabel.getD usual.poolLabel
    consumerLabel := o.consumerLabel.getD usual.consumerLabel
    contend := o.contend }

end Options

inductive Argument
  | dashes
  | long (name : String) (value : Option String)
  | short (letter : Char)
  | word (s : String)

namespace Argument

def ofString (s : String) : Argument :=
  match s.toList with
  | ['-', '-'] => .dashes
  | '-' :: '-' :: rest =>
      let name := String.ofList (rest.takeWhile (· ≠ '='))
      match rest.dropWhile (· ≠ '=') with
      | [] => .long name none
      | _ :: value => .long name (some (String.ofList value))
  | '-' :: c :: _ => .short c
  | _ => .word s

def word? : Argument → Option String
  | .word s => some s
  | _ => none

end Argument

/-- Where reading options ends: at the end, at a word, or where the outcome is clear. -/
inductive Scan
  | finished (o : Options)
  | word (o : Options) (s : String) (rest : List String)
  | decided (i : Invocation)

def scan (known : List Switch) (o : Options) : List String → Scan
  | [] => .finished o
  | arg :: rest =>
      match Argument.ofString arg with
      -- after two dashes only words may follow, and none is expected
      | .dashes => if rest = [] then .finished o else .decided .misuse
      -- a word ends the options, as it may name a command
      | .word s => .word o s rest
      | .short c =>
          match (known.find? (·.letter? = some c)).map o.raise with
          | some (.error i) => .decided i
          | _ => .decided .misuse
      | .long name value =>
          match known.find? (·.name = name) with
          | none => .decided .misuse
          | some switch =>
              if switch.isFlag then
                -- a flag with a value is refused
                if value.isSome then .decided .misuse
                else
                  match o.raise switch with
                  | .ok o' => scan known o' rest
                  | .error i => .decided i
              else
                match value with
                | some v =>
                    match o.set? switch v with
                    | some o' => scan known o' rest
                    | none => .decided .misuse
                | none =>
                    match rest with
                    | [] => .decided .misuse
                    -- the value is the next argument, which must not look like an option
                    | v :: after =>
                        match (Argument.ofString v).word? >>= o.set? switch with
                        | some o' => scan known o' after
                        | none => .decided .misuse

namespace Invocation

def outerSwitches : List Switch := [.config, .help, .version]

def simulateSwitches : List Switch :=
  [.config, .nodes, .poolLabel, .consumerLabel, .contend, .format, .help]

def configSwitches : List Switch := [.config, .help]

def ofCommand (outer : Options) (known : List Switch) (action : Options → Action)
    (args : List String) : Invocation :=
  match scan known {} args with
  | .finished inner => .perform (inner.config <|> outer.config) (action inner)
  | .word _ _ _ => .misuse
  | .decided i => i

def parse (args : List String) : Invocation :=
  match scan outerSwitches {} args with
  | .finished _ => .misuse
  | .decided i => i
  | .word outer "simulate" rest =>
      let action := fun (o : Options) => Action.simulate o.settings (o.format.getD .json)
      ofCommand outer simulateSwitches action rest
  | .word outer "config" rest => ofCommand outer configSwitches (fun _ => .showConfig) rest
  | .word _ "help" [] => .help
  | .word _ "help" [name] => if name ∈ ["simulate", "config", "help"] then .help else .misuse
  | .word _ _ _ => .misuse

end Invocation

namespace Command

structure Outcome where
  exitCode : Nat
  stdout : String := ""
  stderr : String := ""
  deriving DecidableEq, Repr

def banner : String := "npool 0.1.0\n"

def usage : String :=
  "Usage: npool [--config FILE] simulate|config\n\nCommands:\n"
    ++ "  simulate  [--nodes N] [--pool-label LABEL] [--consumer-label LABEL] [--contend]"
    ++ " [--format text|json]\n  config\n"

def failure (message : String) : Outcome :=
  { exitCode := 1, stderr := "Error: " ++ message ++ "\n" }

def present (format : Format) (report : SimulationReport) : String :=
  match format with
  | .text => report.text ++ "\n"
  | .json => report.toJson.prettyText ++ "\n"

def perform (config : Config) : Action → Outcome
  | .showConfig => { exitCode := 0, stdout := config.encode }
  | .simulate settings format =>
      match Simulation.run config settings with
      | .ok report => { exitCode := 0, stdout := present format report }
      | .error e => failure e.message

/-- Runs the program, where `read` gives the content of a file or why it cannot be had. -/
def run (read : String → Except String Bytes) (args : List String) : Outcome :=
  match Invocation.parse args with
  | .misuse => { exitCode := 2, stderr := usage }
  | .help => { exitCode := 0, stdout := usage }
  | .version => { exitCode := 0, stdout := banner }
  | .perform none action => perform {} action
  | .perform (some file) action =>
      match Config.load file (read file) with
      | .ok config => perform config action
      | .error e => failure e.message

end Command

end FencedPool
