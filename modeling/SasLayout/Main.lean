import SasLayout.CommandLine

set_option autoImplicit false

/-! The command line: reads the arguments, the environment and the files, and prints. -/
namespace SasLayout

def readEnvironment : IO Environment := do
  let mut env : Environment := []
  for name in Environment.variableNames do
    if let some value ← IO.getEnv name then env := env ++ [(name, value)]
  return env

/-- Why a file could not be read. -/
def readFailure : IO.Error → String
  | .noFileOrDirectory _ code _ => s!"No such file or directory (os error {code})"
  | .permissionDenied _ code _ => s!"Permission denied (os error {code})"
  | .inappropriateType _ code details => s!"{details} (os error {code})"
  | e => toString e

def readSource (path : String) : IO SourceFile := do
  try return .contents (← IO.FS.readBinFile path)
  catch e => return .unreadable (readFailure e)

def runRequest (r : CommandLine.Request) : IO UInt32 := do
  let env ← readEnvironment
  let config ← match r.config with
    | some path => readSource path
    | none => pure (.contents .empty)
  let report := CommandLine.run env r config (← readSource r.file)
  IO.print report.printed
  IO.eprint report.errorText
  return report.exitCode.toUInt32

end SasLayout

open SasLayout in
def main (args : List String) : IO UInt32 := do
  match CommandLine.parse args with
  | .ok r => runRequest r
  | .error .version =>
    IO.println CommandLine.versionLine
    return 0
  | .error .help =>
    IO.println CommandLine.usageText
    return 0
  | .error (.rejected (some why)) =>
    IO.eprint why
    return 2
  | .error (.rejected none) =>
    IO.eprintln CommandLine.usageText
    return 2
