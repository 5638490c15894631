import Stela.Command.Run

/-!
# The program

Reads the files and variables that a run may need and prints its result.
-/

namespace Stela

/-- The variables that settings are read from. -/
def settingVariables : List String :=
  ["STELA_WARN_UNUSED", "STELA_WARN_SHADOW", "STELA_RELOCATION_ELISION", "STELA_MESSAGE_FORMAT",
    "STELA_LOG"]

/-- The text of a file, or the reason why it cannot be read. -/
def readSource (path : String) : IO (Except ReadError String) := do
  try
    return .ok (← IO.FS.readFile path)
  catch
    | .noFileOrDirectory .. => return .error .notFound
    | .inappropriateType _ code _ =>
      return .error (if code == 21 then .isADirectory else .notADirectory)
    | error => return .error (.other (toString error))

end Stela

def main (args : List String) : IO UInt32 := do
  let paths := match Stela.Request.ofArgs args with
    | .run _ _ files => files
    | _ => []
  let texts ← paths.mapM fun path => do return (path, ← Stela.readSource path)
  let values ← Stela.settingVariables.mapM fun var => do return (var, ← IO.getEnv var)
  let read (path : String) := (texts.lookup path).getD (.error .notFound)
  let result := Stela.Command.run args (fun var => (values.lookup var).join) read
  result.stdout.forM IO.println
  result.stderr.forM IO.eprintln
  return UInt32.ofNat result.exit
