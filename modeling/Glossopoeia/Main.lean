import Glossopoeia.CommandLine.Run

/-!
# The command

Reads the files that the arguments name, composes the document and writes it.
-/

set_option autoImplicit false

namespace Glossopoeia.CommandLine

/-- The text of a file, if it can be read. -/
def fileText (path : String) : IO (Option String) := do
  try
    return some (← IO.FS.readFile path)
  catch _ => return none

/-- What is said about the command. -/
def usage : String :=
  "Usage: glossopoeia --input FILE --output FILE [--config FILE] [--decline] [--no-derive]\n" ++
  "  [--voice NAME] [--espeak-language CODE] [--language CODE]"

/-- Do the work that is asked for. -/
def perform (a : Arguments) : IO Status := do
  let config ← fileText (a.config.getD defaultConfig)
  let save ← fileText a.input
  match a.compose config save with
  | .error e =>
    IO.eprintln ((e.message).getD "a file cannot be read")
    return .failed
  | .ok text =>
    try
      IO.FS.writeFile a.output text
      return .done
    catch _ => return .failed

end Glossopoeia.CommandLine

open Glossopoeia.CommandLine in
/-- The command. -/
def main (args : List String) : IO UInt32 := do
  let status ← match Request.ofArguments args with
    | .unusable => do IO.eprintln usage; pure Status.unusable
    | .information => do IO.println usage; pure Status.done
    | .work a => perform a
  return UInt32.ofNat status.code
