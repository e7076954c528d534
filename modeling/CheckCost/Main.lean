import CheckCost.CommandLine

/-!
The command line program. Exit code 2 tells of arguments or settings that cannot be used, 1 of inputs
that broke the report off.
-/
open CheckCost

namespace CheckCost.Program

def fileFault : IO.Error → FileFault
  | .noFileOrDirectory _ code details => .ofCode code.toNat details
  | .inappropriateType _ code details => .ofCode code.toNat details
  | .permissionDenied _ code details => .ofCode code.toNat details
  | .invalidArgument _ code details => .ofCode code.toNat details
  | .otherError code details => .ofCode code.toNat details
  | error => .other 5 (toString error)

def contentOf (path : Path) : IO FileContent := do
  if path.holdsNul then return .error .nul
  try
    let bytes ← IO.FS.readBinFile path.text
    return .ok bytes.toList
  catch error => return .error (fileFault error)

def environmentFor (options : CommandLine.Options) : IO Environment := do
  let some path := options.config | return []
  match ← contentOf path with
  | .error _ => return []
  | .ok bytes =>
    match FileText.ofBytes bytes with
    | .error _ => return []
    | .ok cs =>
      (Environment.names (String.ofList cs)).filterMapM fun name => do
        return (← IO.getEnv name).map fun value => (name, value)

/-- Styles are only for terminals. -/
def write (text : String) : IO Unit := do
  let stdout ← IO.getStdout
  stdout.putStrLn (if ← stdout.isTty then text else Text.plain text)

def runWith (options : CommandLine.Options) : IO UInt32 := do
  let working := Path.ofString (← IO.currentDir).toString
  let env ← environmentFor options
  let started ← IO.monoMsNow
  match ← CommandLine.run contentOf env working options with
  | .ok (settings, report) =>
    let elapsed := ((← IO.monoMsNow) - started).toFloat / 1000.0
    write (CommandLine.output working options.format elapsed settings report)
    return 0
  | .error fault =>
    if fault.isExplained then
      IO.eprintln fault.explanation
      return 2
    else
      IO.eprintln fault.message
      return 1

end CheckCost.Program

def main (arguments : List String) : IO UInt32 :=
  match CommandLine.options? arguments with
  | some options => CheckCost.Program.runWith options
  | none => do
    IO.eprintln "ts-rank: the arguments are not understood"
    return 2
