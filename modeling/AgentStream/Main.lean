/-
# The program

Reads the files that the command line names, and prints what the call reports.
-/
import AgentStream.CommandLine

open AgentStream CommandLine

namespace AgentStream.CommandLine

/-- Why a file cannot be read, as the system puts it. -/
def readFault : IO.Error → String
  | .noFileOrDirectory _ code details => details ++ " (os error " ++ toString code ++ ")"
  | .permissionDenied _ code details => details ++ " (os error " ++ toString code ++ ")"
  | .inappropriateType _ code details => details ++ " (os error " ++ toString code ++ ")"
  | e => toString e

/-- The greatest random number that is drawn at once. -/
def maxRandom : Nat := 1073741823

/-- Read a file. -/
def load (path : String) : IO File := do
  match ← (IO.FS.readBinFile path).toBaseIO with
  | .ok contents => pure ⟨path, .ok contents.data.toList⟩
  | .error e => pure ⟨path, .error (readFault e)⟩

/-- Run one call. -/
def call (words : List String) : IO UInt32 := do
  match Options.parse words (← IO.getEnv configVariable) with
  | none =>
    IO.eprintln usage
    pure 2
  | some options =>
    let configFile ← options.config.mapM load
    let input ← load options.input
    let high ← IO.rand 0 maxRandom
    let low ← IO.rand 0 maxRandom
    let report := execute input configFile options.snapshot ⟨high * (maxRandom + 1) + low⟩
    for line in report.output do
      IO.println line
    match report.error with
    | some message => IO.eprintln message
    | none => pure ()
    pure (UInt32.ofNat report.exitCode)

end AgentStream.CommandLine

/-- The entry point. -/
def main (words : List String) : IO UInt32 := call words
