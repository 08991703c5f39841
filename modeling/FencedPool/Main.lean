import FencedPool.Command

/-!
# Main — the program

The arguments decide which file of settings is read; all else is decided by `Command.run`.
-/

namespace FencedPool

namespace Command

/-- Why a file could not be read, as the system puts it. -/
def reason : IO.Error → String
  | .noFileOrDirectory _ code _ => "No such file or directory (os error " ++ toString code ++ ")"
  | .permissionDenied _ code _ => "Permission denied (os error " ++ toString code ++ ")"
  | .inappropriateType _ code _ => "Is a directory (os error " ++ toString code ++ ")"
  | e => toString e

def readFile (file : String) : IO (Except String Bytes) := do
  try
    return .ok (← IO.FS.readBinFile file).toList
  catch e =>
    return .error (reason e)

def settingsFile (args : List String) : IO (Except String Bytes) :=
  match Invocation.parse args with
  | .perform (some file) _ => readFile file
  | _ => return .ok []

end Command

end FencedPool

def main (args : List String) : IO UInt32 := do
  let content ← FencedPool.Command.settingsFile args
  let outcome := FencedPool.Command.run (fun _ => content) args
  IO.print outcome.stdout
  IO.eprint outcome.stderr
  return outcome.exitCode.toUInt32
